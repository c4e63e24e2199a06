import Mathlib.Data.List.Sort
import Shellflow.Lib.Masked
import Shellflow.Lib.Slice

/-! Replacing ranges of a line by the placeholder. Offsets count characters: every offset of the
source is a character boundary. -/
namespace Shellflow
open Slice Masked

/-- A string as its characters. -/
abbrev Text := List Char

def mask : Text := ['*', '*', '*']

/-- The order of pairs: by the start, then by the length. -/
def RangeLe (a b : Nat × Nat) : Prop := a.1 < b.1 ∨ a.1 = b.1 ∧ a.2 ≤ b.2

instance (a b : Nat × Nat) : Decidable (RangeLe a b) := inferInstanceAs (Decidable (_ ∨ _))

/-- From ranges as start and length to disjoint ones as start and end; the last merged one goes
from `start` to `stop`. -/
def mergeFrom (start stop : Nat) : List (Nat × Nat) → List (Nat × Nat)
  | [] => [(start, stop)]
  | (pos, len) :: rest =>
    if pos ≤ stop then mergeFrom start (max stop (pos + len)) rest
    else (start, stop) :: mergeFrom pos (pos + len) rest

def merged : List (Nat × Nat) → List (Nat × Nat)
  | [] => []
  | (pos, len) :: rest => mergeFrom pos (pos + len) rest

def renderFrom (line : Text) (cursor : Nat) : List (Nat × Nat) → Text
  | [] => line.drop cursor
  | (start, stop) :: rest =>
    slice cursor start line ++ mask ++ renderFrom line (max cursor stop) rest

def applyRanges (line : Text) (ranges : List (Nat × Nat)) : Text :=
  if ranges.isEmpty then line
  else renderFrom line 0 (merged (ranges.insertionSort RangeLe))

/-- The character at `i` lies in one of the ranges. -/
def covered (ranges : List (Nat × Nat)) (i : Nat) : Bool :=
  ranges.any fun r => r.1 ≤ i && i < r.1 + r.2

def marks (line : Text) (hidden : Nat → Bool) : List (Char × Bool) :=
  line.zipIdx.map fun p => (p.1, hidden p.2)

instance : Std.Total RangeLe := ⟨fun a b => by unfold RangeLe; omega⟩

instance : IsTrans (Nat × Nat) RangeLe :=
  ⟨fun a b c hab hbc => by unfold RangeLe at *; omega⟩

@[simp] theorem map_fst_marks (line : Text) (hidden : Nat → Bool) :
    (marks line hidden).map Prod.fst = line := by
  simp [marks, Function.comp_def]

@[simp] theorem length_marks (line : Text) (hidden : Nat → Bool) :
    (marks line hidden).length = line.length := by
  simp [marks]

theorem getElem?_marks {line : Text} {hidden : Nat → Bool} {i : Nat} {p : Char × Bool}
    (h : (marks line hidden)[i]? = some p) : p.2 = hidden i := by
  rw [marks, List.getElem?_map, List.getElem?_zipIdx, Option.map_map] at h
  obtain ⟨c, -, rfl⟩ := Option.map_eq_some_iff.mp h
  simp

/-- Nonempty ranges that end within the line. -/
def RangesFit (line : Text) (ranges : List (Nat × Nat)) : Prop :=
  ∀ r ∈ ranges, 0 < r.2 ∧ r.1 + r.2 ≤ line.length

/-- A shown part, a hidden run and whatever follows. -/
theorem hides_gap_run {line out : Text} {hidden : Nat → Bool} {a b c : Nat} (hab : a ≤ b)
    (hbc : b < c) (hc : c ≤ line.length) (hgap : ∀ i, a ≤ i → i < b → hidden i = false)
    (hrun : ∀ i, b ≤ i → i < c → hidden i = true)
    (hrest : Hides mask ((marks line hidden).drop c) out) :
    Hides mask ((marks line hidden).drop a) (slice a b line ++ mask ++ out) := by
  have hshown : Hides mask (slice a b (marks line hidden)) (slice a b line) := by
    have hplain : ∀ p ∈ slice a b (marks line hidden), p.2 = false := by
      intro p hp
      obtain ⟨i, hai, hib, hi⟩ := mem_slice.mp hp
      rw [getElem?_marks hi, hgap i hai hib]
    rw [eq_plain hplain, ← slice_map, map_fst_marks]
    exact hides_plain _
  have hhidden : Hides mask (slice b c (marks line hidden)) mask := by
    apply hides_run
    · rw [← List.length_pos_iff, length_slice, length_marks]
      omega
    · intro p hp
      obtain ⟨i, hbi, hic, hi⟩ := mem_slice.mp hp
      rw [getElem?_marks hi, hrun i hbi hic]
  rw [← slice_append_drop (marks line hidden) hab,
    ← slice_append_drop (marks line hidden) (Nat.le_of_lt hbc), ← List.append_assoc]
  exact (hshown.append hhidden).append hrest

theorem hides_shown {line : Text} {hidden : Nat → Bool} {a : Nat}
    (h : ∀ i, a ≤ i → hidden i = false) :
    Hides mask ((marks line hidden).drop a) (line.drop a) := by
  have hplain : ∀ p ∈ (marks line hidden).drop a, p.2 = false := by
    intro p hp
    obtain ⟨i, hi⟩ := List.mem_iff_getElem?.mp hp
    rw [List.getElem?_drop] at hi
    rw [getElem?_marks hi, h _ (Nat.le_add_right a i)]
  rw [eq_plain hplain, List.map_drop, map_fst_marks]
  exact hides_plain _

theorem covered_cons (r : Nat × Nat) (ranges : List (Nat × Nat)) (i : Nat) :
    covered (r :: ranges) i = true ↔ (r.1 ≤ i ∧ i < r.1 + r.2) ∨ covered ranges i = true := by
  simp [covered]

theorem covered_iff {ranges : List (Nat × Nat)} {i : Nat} :
    covered ranges i = true ↔ ∃ r ∈ ranges, r.1 ≤ i ∧ i < r.1 + r.2 := by
  simp [covered]

theorem hides_mergeFrom {line : Text} {hidden : Nat → Bool} {start stop cursor : Nat}
    {rest : List (Nat × Nat)} (hcursor : cursor ≤ start) (hne : start < stop)
    (hstop : stop ≤ line.length) (hfit : RangesFit line rest) (hpos : ∀ r ∈ rest, start ≤ r.1)
    (hsorted : rest.Pairwise RangeLe)
    (hhidden : ∀ i, cursor ≤ i →
      (hidden i = true ↔ (start ≤ i ∧ i < stop) ∨ covered rest i = true)) :
    Hides mask ((marks line hidden).drop cursor)
      (renderFrom line cursor (mergeFrom start stop rest)) := by
  induction rest generalizing start stop cursor with
  | nil =>
    have hout : ∀ i, cursor ≤ i → ¬ (start ≤ i ∧ i < stop) → hidden i = false := by
      intro i hi hnot
      rw [Bool.eq_false_iff, ne_eq, hhidden i hi]
      simp [covered, hnot]
    have hmax : max cursor stop = stop := by omega
    rw [mergeFrom, renderFrom, renderFrom, hmax]
    apply hides_gap_run hcursor hne hstop
    · exact fun i hi hlt => hout i hi (by omega)
    · exact fun i hi hlt => (hhidden i (by omega)).mpr (Or.inl ⟨hi, hlt⟩)
    · exact hides_shown fun i hi => hout i (by omega) (by omega)
  | cons r rest ih =>
    obtain ⟨pos, len⟩ := r
    have hr : 0 < len ∧ pos + len ≤ line.length := hfit (pos, len) List.mem_cons_self
    have hstart : start ≤ pos := hpos (pos, len) List.mem_cons_self
    have hfit' : RangesFit line rest := fun q hq => hfit q (List.mem_cons_of_mem _ hq)
    have hpos' : ∀ q ∈ rest, pos ≤ q.1 := by
      intro q hq
      have hle : RangeLe (pos, len) q := List.rel_of_pairwise_cons hsorted hq
      unfold RangeLe at hle
      omega
    have hsorted' : rest.Pairwise RangeLe := hsorted.of_cons
    rw [mergeFrom]
    by_cases htouch : pos ≤ stop
    · rw [if_pos htouch]
      apply ih hcursor (by omega) (by omega) hfit' (fun q hq => hstart.trans (hpos' q hq)) hsorted'
      intro i hi
      rw [hhidden i hi, covered_cons, ← or_assoc]
      refine or_congr_left ?_
      show _ ∨ pos ≤ i ∧ i < pos + len ↔ _
      omega
    · rw [if_neg htouch, renderFrom]
      have hmax : max cursor stop = stop := by omega
      have hlater : ∀ i, i < pos → covered rest i = false := by
        intro i hi
        rw [Bool.eq_false_iff, ne_eq, covered_iff]
        rintro ⟨q, hq, hqi, -⟩
        have := hpos' q hq
        omega
      rw [hmax]
      apply hides_gap_run hcursor hne hstop
      · intro i hi hlt
        rw [Bool.eq_false_iff, ne_eq, hhidden i hi, covered_cons, hlater i (by omega)]
        simp
        omega
      · exact fun i hi hlt => (hhidden i (by omega)).mpr (Or.inl ⟨hi, hlt⟩)
      · apply ih (by omega) (by omega) hr.2 hfit' hpos' hsorted'
        intro i hi
        rw [hhidden i (by omega), covered_cons]
        constructor
        · rintro (h | h)
          · omega
          · exact h
        · exact Or.inr

/-- What the ranges cover is hidden, and nothing else. -/
theorem hides_applyRanges {line : Text} {ranges : List (Nat × Nat)} (hfit : RangesFit line ranges) :
    Hides mask (marks line (covered ranges)) (applyRanges line ranges) := by
  cases ranges with
  | nil =>
    have h : Hides mask ((marks line (covered [])).drop 0) (line.drop 0) :=
      hides_shown fun i _ => rfl
    exact h
  | cons r ranges =>
    have hmem : ∀ q, q ∈ (r :: ranges).insertionSort RangeLe ↔ q ∈ r :: ranges :=
      fun q => List.mem_insertionSort RangeLe
    have hsorted : ((r :: ranges).insertionSort RangeLe).Pairwise RangeLe :=
      List.pairwise_insertionSort RangeLe _
    have hcovered : ∀ i, covered (r :: ranges) i = true ↔
        covered ((r :: ranges).insertionSort RangeLe) i = true := by
      intro i
      simp only [covered_iff, hmem]
    rw [applyRanges, if_neg (by simp)]
    cases hsort : (r :: ranges).insertionSort RangeLe with
    | nil =>
      have hlen := List.length_insertionSort RangeLe (r :: ranges)
      rw [hsort] at hlen
      cases hlen
    | cons first rest =>
      obtain ⟨pos, len⟩ := first
      rw [hsort] at hmem hsorted hcovered
      have hfirst := hfit (pos, len) ((hmem _).mp List.mem_cons_self)
      have hrest : RangesFit line rest :=
        fun q hq => hfit q ((hmem q).mp (List.mem_cons_of_mem _ hq))
      have hpos : ∀ q ∈ rest, pos ≤ q.1 := by
        intro q hq
        have hle : RangeLe (pos, len) q := List.rel_of_pairwise_cons hsorted hq
        unfold RangeLe at hle
        omega
      rw [merged]
      refine hides_mergeFrom (Nat.zero_le pos) (Nat.lt_add_of_pos_right hfirst.1) hfirst.2 hrest
        hpos hsorted.of_cons fun i _ => ?_
      rw [hcovered, covered_cons]

end Shellflow
