import Mathlib.Logic.Relation
import Shellflow.Muxy.Provenance

/-! Exactly once, in order: on a terminal whose visible rows may still be rewritten, which runs
make the assembler emit every row after the marker once, with the text it had when it left the
screen? -/
namespace Shellflow
open Slice LineAssembler

/-- What a terminal of height `h` can do: print a row, or rewrite one that is still visible. -/
inductive TermStep (h : Nat) : List String → List String → Prop
  | append (rows : List String) (row : String) : TermStep h rows (rows ++ [row])
  | rewrite (rows : List String) (i : Nat) (row : String) (hi : scrolled h rows ≤ i) :
      TermStep h rows (rows.set i row)

def Evolves (h : Nat) : List String → List String → Prop := Relation.ReflTransGen (TermStep h)

theorem TermStep.frozen {h : Nat} {s t : List String} (hst : TermStep h s t) :
    s.length ≤ t.length ∧ t.take (scrolled h s) = s.take (scrolled h s) := by
  cases hst with
  | append row =>
    have hle : scrolled h s ≤ s.length := Nat.sub_le _ _
    exact ⟨by simp, List.take_append_of_le_length hle⟩
  | rewrite i row hi => exact ⟨by simp, List.take_set_of_le hi⟩

/-- A row that left the screen keeps its text for good. -/
theorem Evolves.frozen {h : Nat} {s t : List String} (hst : Evolves h s t) :
    s.length ≤ t.length ∧ t.take (scrolled h s) = s.take (scrolled h s) := by
  induction hst with
  | refl => exact ⟨Nat.le_refl _, rfl⟩
  | tail _ hstep ih =>
    obtain ⟨hlen, htake⟩ := hstep.frozen
    refine ⟨ih.1.trans hlen, ?_⟩
    have hmono : scrolled h s ≤ scrolled h _ := Nat.sub_le_sub_right ih.1 h
    have hcut := congrArg (List.take (scrolled h s)) htake
    rw [List.take_take, List.take_take, Nat.min_eq_left hmono] at hcut
    exact hcut.trans ih.2

theorem Evolves.scrolled_le {h : Nat} {s t : List String} (hst : Evolves h s t) :
    scrolled h s ≤ scrolled h t :=
  Nat.sub_le_sub_right hst.frozen.1 h

theorem Evolves.slice_eq {h : Nat} {s t : List String} (hst : Evolves h s t) {a b : Nat}
    (hb : b ≤ scrolled h s) : slice a b t = slice a b s := by
  have hcut := congrArg (List.take b) hst.frozen.2
  rw [List.take_take, List.take_take, Nat.min_eq_left hb] at hcut
  rw [slice, slice, hcut]

/-- Only the row with index `m` holds the marker, and it does once it left the screen. -/
structure Marked (h m : Nat) (marker : String) (rows : List String) : Prop where
  only : ∀ i row, rows[i]? = some row → Str.contains row marker = true → i = m
  history : m < scrolled h rows → ∃ row, rows[m]? = some row ∧ Str.contains row marker = true

/-- The rows of the last screen as `finish` prints them: blank ones are dropped. -/
def tailOf (rows : List String) : List String :=
  (rows.map collapseCr).filter fun row => !isBlank row

/-- Everything after the marker row: the history in full, then the screen. -/
def afterMarker (h m : Nat) (rows : List String) : List String :=
  slice (m + 1) (scrolled h rows) (rows.map collapseCr) ++
    tailOf (rows.drop (max (m + 1) (scrolled h rows)))

abbrev Frame := Screen String × List String

def frame (h : Nat) (rows : List String) : Frame := frameOf "" h rows

/-- May this frame be read? The rows guessed to have left the screen must be among those that
did, with their final text; a marker that is still on the screen must be on the last frame. -/
def FrameExact (h m : Nat) (asm : LineAssembler String) (rows : List String) : Prop :=
  let screen := (frame h rows).1
  let gone := asm.historyTotal + asm.shiftTo screen.rows
  if asm.initialized = false then scrolled h rows ≤ m
  else if asm.armed = true then
    asm.prev.length = h ∧ gone ≤ scrolled h rows ∧
      asm.departed screen = slice asm.historyTotal gone (rows.map collapseCr)
  else if (asm.departed screen).any asm.hasMarker = true then
    gone ≤ scrolled h rows ∧
      (asm.departed screen).drop (m - asm.historyTotal + 1) =
        slice (m + 1) gone (rows.map collapseCr)
  else if screen.rows.any asm.hasMarker = true then asm.missingFrom screen = 0
  else scrolled h rows ≤ m ∨ gone ≤ m

instance (h m : Nat) (asm : LineAssembler String) (rows : List String) :
    Decidable (FrameExact h m asm rows) := by
  unfold FrameExact
  infer_instance

/-- At the end the marker was seen, or is on the screen, or nothing was printed after it. -/
def FinishExact (h m : Nat) (asm : LineAssembler String) (rows : List String) : Prop :=
  asm.armed = true ∨ (asm.prev.map collapseCr).any asm.hasMarker = true ∨ afterMarker h m rows = []

/-- Every frame of the run may be read; `rows` is what the last frame showed. -/
def RunExact (h m : Nat) (asm : LineAssembler String) (rows : List String) :
    List (List String) → Prop
  | [] => FinishExact h m asm rows
  | rows' :: rest =>
    FrameExact h m asm rows' ∧
      RunExact h m (asm.feed (frame h rows').1 (frame h rows').2).1 rows' rest

section Facts
variable {h m : Nat} {marker : String}

theorem drop_screenRows {rows : List String} {k : Nat} (hk : scrolled h rows ≤ k) :
    (screenRows "" h rows).drop (k - scrolled h rows) =
      rows.drop k ++ (List.replicate (h - rows.length) "").drop (k - rows.length) := by
  rw [screenRows, List.drop_append, List.drop_drop, List.length_drop, Nat.add_sub_cancel' hk]
  refine congrArg (fun n => rows.drop k ++ (List.replicate (h - rows.length) "").drop n) ?_
  rw [scrolled] at hk ⊢
  omega

/-- The padding of a screen is dropped with the other blank rows. -/
theorem finishTail_screenRows {rows : List String} {k : Nat} (hk : scrolled h rows ≤ k) :
    finishTail (((screenRows "" h rows).drop (k - scrolled h rows)).map TextRow.collapse) =
      tailOf (rows.drop k) := by
  have hpad : ∀ n, ((((List.replicate (h - rows.length) "").drop n).map collapseCr).filter
      fun row => !isBlank row) = [] := by
    intro n
    rw [List.drop_replicate, List.map_replicate]
    refine List.filter_eq_nil_iff.mpr fun row hrow => ?_
    rw [List.eq_of_mem_replicate hrow]
    decide
  rw [finishTail_eq, drop_screenRows hk, List.map_append, List.filter_append]
  exact (congrArg _ (hpad _)).trans (List.append_nil _)

theorem gapOf_frame (rows : List String) (missing : Nat) :
    gapOf (frame h rows).1 (frame h rows).2 missing =
      slice (scrolled h rows - missing) (scrolled h rows) rows := by
  rw [gapOf, slice, slice]
  simp only [frame, frameOf]
  rw [List.take_take, Nat.min_self]

theorem index_of_screen {rows : List String} (hmark : Marked h m marker rows)
    (hne : marker ≠ "") {j : Nat} {row : String} (hrow : (screenRows "" h rows)[j]? = some row)
    (hcontains : Str.contains row marker = true) :
    scrolled h rows + j = m ∧ m < rows.length := by
  rw [getElem?_screenRows] at hrow
  split at hrow
  · next hreal =>
    have hindex := hmark.only _ _ hrow hcontains
    exact ⟨hindex, hindex ▸ hreal⟩
  · split at hrow
    · rw [← Option.some.inj hrow, not_contains_empty hne] at hcontains
      cases hcontains
    · cases hrow

theorem findIdx?_map_collapse {asm : LineAssembler String} {rows : List String} {i : Nat}
    (hfind : (rows.map TextRow.collapse).findIdx? asm.hasMarker = some i) :
    ∃ row, rows[i]? = some row ∧ Str.contains row asm.marker = true := by
  obtain ⟨hi, hmark, -⟩ := List.findIdx?_eq_some_iff_getElem.mp hfind
  rw [List.length_map] at hi
  refine ⟨rows[i], List.getElem?_eq_getElem hi, ?_⟩
  rw [List.getElem_map] at hmark
  exact contains_of_contains_collapseCr hmark

end Facts

section Runs
variable {h m : Nat} {marker : String}

theorem evolves_last {s : List String} {rest : List (List String)}
    (hchain : (s :: rest).Pairwise (Evolves h)) : Evolves h s (rest.getLastD s) := by
  have hlast : rest.getLastD s ∈ s :: rest := List.getLastD_mem_cons
  rcases List.mem_cons.mp hlast with heq | hmem
  · rw [heq]
    exact Relation.ReflTransGen.refl
  · exact (List.pairwise_cons.mp hchain).1 _ hmem

theorem slice_collapse_eq {s t : List String} (hst : Evolves h s t) {a b : Nat}
    (hb : b ≤ scrolled h s) :
    slice a b (t.map collapseCr) = slice a b (s.map collapseCr) := by
  rw [slice_map, slice_map, hst.slice_eq hb]

/-- The rows of one frame once the marker is in the history: departed rows, then the gap. -/
theorem departed_append_gap {asm : LineAssembler String} {s' : List String} {start : Nat}
    (hgone : asm.historyTotal + asm.shiftTo (frame h s').1.rows ≤ scrolled h s')
    (hfrom : start ≤ asm.historyTotal + asm.shiftTo (frame h s').1.rows) :
    slice start (asm.historyTotal + asm.shiftTo (frame h s').1.rows) (s'.map collapseCr) ++
        (gapOf (frame h s').1 (frame h s').2 (asm.missingFrom (frame h s').1)).map
          TextRow.collapse =
      slice start (scrolled h s') (s'.map collapseCr) := by
  have hfirst : scrolled h s' - asm.missingFrom (frame h s').1 =
      asm.historyTotal + asm.shiftTo (frame h s').1.rows := by
    have hmissing : asm.missingFrom (frame h s').1 =
        (scrolled h s' - asm.historyTotal) - asm.shiftTo (frame h s').1.rows := rfl
    omega
  rw [gapOf_frame, hfirst]
  have hgap : (slice (asm.historyTotal + asm.shiftTo (frame h s').1.rows) (scrolled h s')
      s').map TextRow.collapse = slice (asm.historyTotal + asm.shiftTo (frame h s').1.rows)
        (scrolled h s') (s'.map collapseCr) := (slice_map collapseCr _ _ _).symm
  rw [hgap]
  exact slice_append_slice _ hfrom hgone

/-- The marker is in the history and the baseline is the screen of `s`. -/
def streaming (h : Nat) (marker : String) (s : List String) : LineAssembler String :=
  ⟨screenRows "" h s, true, marker, scrolled h s, true⟩

/-- The marker was not seen yet. -/
def waiting (h : Nat) (marker : String) (s : List String) : LineAssembler String :=
  ⟨screenRows "" h s, false, marker, scrolled h s, true⟩

theorem feed_streaming {s s' : List String} (hexact : FrameExact h m (streaming h marker s) s') :
    (streaming h marker s).feed (frame h s').1 (frame h s').2 =
      (streaming h marker s', slice (scrolled h s) (scrolled h s') (s'.map collapseCr)) := by
  obtain ⟨-, hgone, hdeparted⟩ := hexact
  have hpush : (streaming h marker s).push (frame h s').1 = _ :=
    (push_scroll rfl rfl).trans (pushScroll_armed rfl)
  rw [feed_eq hpush, feedGap_armed rfl]
  refine Prod.ext rfl ?_
  simp only [hdeparted]
  exact departed_append_gap hgone (Nat.le_add_right _ _)

theorem run_streaming {s : List String} {rest : List (List String)}
    (hchain : (s :: rest).Pairwise (Evolves h))
    (hexact : RunExact h m (streaming h marker s) s rest) :
    (streaming h marker s).run (rest.map (frame h)) =
      slice (scrolled h s) (scrolled h (rest.getLastD s)) ((rest.getLastD s).map collapseCr) ++
        tailOf ((rest.getLastD s).drop (scrolled h (rest.getLastD s))) := by
  induction rest generalizing s with
  | nil =>
    have htail := finishTail_screenRows (Nat.le_refl (scrolled h s))
    rw [Nat.sub_self, List.drop_zero] at htail
    rw [List.getLastD_nil, slice_eq_nil _ (Nat.le_refl _), List.nil_append, ← htail]
    exact finish_armed rfl
  | cons s' rest ih =>
    obtain ⟨hframe, hrest⟩ := hexact
    obtain ⟨hs, hchain'⟩ := List.pairwise_cons.mp hchain
    have hle := (hs s' List.mem_cons_self).scrolled_le
    have hlast := evolves_last hchain'
    rw [feed_streaming hframe] at hrest
    rw [List.map_cons, run, feed_streaming hframe, ih hchain' hrest, List.getLastD_cons,
      ← slice_collapse_eq hlast (Nat.le_refl _), ← List.append_assoc,
      slice_append_slice _ hle hlast.scrolled_le]

/-- All of it in two parts: the history up to some frame, then what comes out of the rest. -/
theorem afterMarker_eq {s last : List String} (hlast : Evolves h s last)
    (hm : m < scrolled h s) :
    slice (m + 1) (scrolled h s) (s.map collapseCr) ++
        (slice (scrolled h s) (scrolled h last) (last.map collapseCr) ++
          tailOf (last.drop (scrolled h last))) = afterMarker h m last := by
  have hle := hlast.scrolled_le
  rw [← slice_collapse_eq hlast (Nat.le_refl _), ← List.append_assoc,
    slice_append_slice _ hm hle, afterMarker, Nat.max_eq_right (by omega)]

/-- The marker was cut off the screen and no further frame follows. -/
theorem finish_cut {s : List String} {i : Nat} (hi : scrolled h s + i = m) :
    finishTail (((screenRows "" h s).drop (i + 1)).map TextRow.collapse) = afterMarker h m s := by
  have hsub : i + 1 = m + 1 - scrolled h s := by omega
  rw [hsub, finishTail_screenRows (by omega), afterMarker, slice_eq_nil _ (by omega),
    List.nil_append, Nat.max_eq_left (by omega)]

theorem finish_waiting {s : List String} (hne : marker ≠ "") (hmark : Marked h m marker s)
    (hexact : FinishExact h m (waiting h marker s) s) :
    (waiting h marker s).finish.2 = afterMarker h m s := by
  cases hfind : ((waiting h marker s).prev.map TextRow.collapse).findIdx?
      (waiting h marker s).hasMarker with
  | some i =>
    obtain ⟨row, hrow, hcontains⟩ := findIdx?_map_collapse hfind
    obtain ⟨hindex, -⟩ := index_of_screen hmark hne hrow hcontains
    rw [finish_found rfl hfind, ← List.map_drop]
    exact finish_cut hindex
  | none =>
    have hnone : ¬((waiting h marker s).prev.map collapseCr).any
        (waiting h marker s).hasMarker = true := by
      rw [← List.findIdx?_isSome]
      exact (congrArg Option.isSome hfind).trans_ne Bool.false_ne_true
    rw [finish_none rfl hfind]
    exact ((hexact.resolve_left Bool.false_ne_true).resolve_left hnone).symm

/-- The marker is found among the rows of the gap. -/
theorem feedGap_waiting {s : List String} (missing : Nat) (hmark : Marked h m marker s)
    (hstart : scrolled h s - missing ≤ m) (hgone : m < scrolled h s) :
    (waiting h marker s).feedGap (gapOf (frame h s).1 (frame h s).2 missing) =
      (streaming h marker s, slice (m + 1) (scrolled h s) (s.map collapseCr)) := by
  obtain ⟨row, hrow, hcontains⟩ := hmark.history hgone
  cases hfind : (gapOf (frame h s).1 (frame h s).2 missing).findIdx?
      (waiting h marker s).hasMarker with
  | none =>
    have hmem : row ∈ gapOf (frame h s).1 (frame h s).2 missing := by
      rw [gapOf_frame]
      exact mem_slice.mpr ⟨m, hstart, hgone, hrow⟩
    have habsent : Str.contains row marker = false := List.findIdx?_eq_none_iff.mp hfind row hmem
    rw [habsent] at hcontains
    cases hcontains
  | some i =>
    obtain ⟨found, hget, hfound⟩ : ∃ found, (gapOf (frame h s).1 (frame h s).2 missing)[i]? =
        some found ∧ Str.contains found marker = true := by
      obtain ⟨hi, hfound, -⟩ := List.findIdx?_eq_some_iff_getElem.mp hfind
      exact ⟨_, List.getElem?_eq_getElem hi, hfound⟩
    have hindex : scrolled h s - missing + i = m := by
      rw [gapOf_frame, getElem?_slice] at hget
      split at hget
      · exact hmark.only _ _ hget hfound
      · cases hget
    have hdrop : (slice (scrolled h s - missing) (scrolled h s) s).drop (i + 1) =
        slice (m + 1) (scrolled h s) s := by
      rw [slice, slice, List.drop_drop]
      congr 1
      omega
    rw [feedGap_found rfl hfind, gapOf_frame, slice_map]
    exact Prod.ext rfl (congrArg (List.map collapseCr) hdrop)

/-- A frame that shows nothing yet. -/
theorem feedGap_waiting_none {s : List String} (missing : Nat) (hmark : Marked h m marker s)
    (hgone : scrolled h s ≤ m) :
    (waiting h marker s).feedGap (gapOf (frame h s).1 (frame h s).2 missing) =
      (waiting h marker s, []) := by
  refine feedGap_none rfl (List.findIdx?_eq_none_iff.mpr fun row hrow => ?_)
  rw [gapOf_frame] at hrow
  obtain ⟨i, -, hi, hget⟩ := mem_slice.mp hrow
  refine eq_false_of_ne_true fun hcontains => ?_
  have hindex := hmark.only i row hget hcontains
  omega

/-- The baseline is cut after the marker, which is row `i` of the screen. -/
def cutAt (h : Nat) (marker : String) (s : List String) (i : Nat) : LineAssembler String :=
  ⟨(screenRows "" h s).drop (i + 1), true, marker, scrolled h s, true⟩

/-- One frame before the marker is out: it scrolled off, or is still to come, or is visible. -/
theorem feed_waiting {s s' : List String} (hne : marker ≠ "") (hmark : Marked h m marker s)
    (hmark' : Marked h m marker s') (hexact : FrameExact h m (waiting h marker s) s') :
    let fed := (waiting h marker s).feed (frame h s').1 (frame h s').2
    (fed = (streaming h marker s', slice (m + 1) (scrolled h s') (s'.map collapseCr)) ∧
        m < scrolled h s') ∨
      (fed = (waiting h marker s', []) ∧ scrolled h s' ≤ m) ∨
      ∃ i, scrolled h s' + i = m ∧ i < h ∧ fed = (cutAt h marker s' i, []) := by
  intro fed
  have hscroll : (waiting h marker s).push (frame h s').1 =
      (waiting h marker s).pushScroll (frame h s').1 := push_scroll rfl rfl
  have hcase : if ((waiting h marker s).departed (frame h s').1).any
        (waiting h marker s).hasMarker = true then _
      else if (frame h s').1.rows.any (waiting h marker s).hasMarker = true then _ else _ := hexact
  cases hlines : ((waiting h marker s).departed (frame h s').1).findIdx?
      (waiting h marker s).hasMarker with
  | some i =>
    left
    have hany : ((waiting h marker s).departed (frame h s').1).any
        (waiting h marker s).hasMarker = true := by
      rw [← List.findIdx?_isSome, hlines]
      rfl
    rw [if_pos hany] at hcase
    obtain ⟨hgone, hrows⟩ := hcase
    obtain ⟨row, hrow, hcontains⟩ := findIdx?_map_collapse hlines
    rw [List.getElem?_take] at hrow
    split at hrow
    · next hshift =>
      obtain ⟨hindex, -⟩ := index_of_screen hmark hne hrow hcontains
      have hi : i = m - scrolled h s := by omega
      have hhistory : (waiting h marker s).historyTotal = scrolled h s := rfl
      have hfed : fed = _ := feed_eq (hscroll.trans (pushScroll_departed rfl hlines)) _
      rw [feedGap_armed rfl] at hfed
      refine ⟨hfed.trans (Prod.ext rfl ?_), by omega⟩
      simp only [hi]
      rw [← hhistory, hrows]
      exact departed_append_gap hgone (by omega)
    · cases hrow
  | none =>
    have hnone : ¬((waiting h marker s).departed (frame h s').1).any
        (waiting h marker s).hasMarker = true := by
      rw [← List.findIdx?_isSome, hlines]
      exact Bool.false_ne_true
    rw [if_neg hnone] at hcase
    cases hscreen : (frame h s').1.rows.findIdx? (waiting h marker s).hasMarker with
    | some i =>
      right; right
      have hany : (frame h s').1.rows.any (waiting h marker s).hasMarker = true := by
        rw [← List.findIdx?_isSome, hscreen]
        rfl
      rw [if_pos hany] at hcase
      obtain ⟨hi, hfound, -⟩ := List.findIdx?_eq_some_iff_getElem.mp hscreen
      have hlt : i < h := lt_of_lt_of_eq hi (length_screenRows "" h s')
      obtain ⟨hindex, -⟩ := index_of_screen hmark' hne (List.getElem?_eq_getElem hi) hfound
      have hfed : fed = _ := feed_eq (hscroll.trans (pushScroll_onScreen rfl hlines hscreen)) _
      have hgap : gapOf (frame h s').1 (frame h s').2 0 = [] := by
        rw [gapOf_frame, Nat.sub_zero, slice_eq_nil _ (Nat.le_refl _)]
      rw [feedGap_armed rfl, hcase, hgap] at hfed
      exact ⟨i, hindex, hlt, hfed⟩
    | none =>
      have hnone' : ¬(frame h s').1.rows.any (waiting h marker s).hasMarker = true := by
        rw [← List.findIdx?_isSome, hscreen]
        exact Bool.false_ne_true
      rw [if_neg hnone'] at hcase
      have hfed : fed = _ := feed_eq (hscroll.trans (pushScroll_unseen rfl hlines hscreen)) _
      have hmissing : (waiting h marker s).missingFrom (frame h s').1 =
          (scrolled h s' - scrolled h s) - (waiting h marker s).shiftTo (frame h s').1.rows := rfl
      by_cases hgone : scrolled h s' ≤ m
      · right; left
        have hgap := feedGap_waiting_none ((waiting h marker s).missingFrom (frame h s').1)
          hmark' hgone
        exact ⟨hfed.trans (congrArg (fun p : LineAssembler String × List String =>
          (p.1, [] ++ p.2)) hgap), hgone⟩
      · left
        have hbefore : scrolled h s + (waiting h marker s).shiftTo (frame h s').1.rows ≤ m :=
          hcase.resolve_left hgone
        have hgap := feedGap_waiting ((waiting h marker s).missingFrom (frame h s').1) hmark'
          (by omega) (Nat.lt_of_not_le hgone)
        exact ⟨hfed.trans (congrArg (fun p : LineAssembler String × List String =>
          (p.1, [] ++ p.2)) hgap), Nat.lt_of_not_le hgone⟩

/-- The first frame of a connection is only a baseline. -/
theorem feed_new (h : Nat) (marker : String) (s : List String) :
    (LineAssembler.new marker : LineAssembler String).feed (frame h s).1 (frame h s).2 =
      (waiting h marker s, []) := by
  have hpush : (LineAssembler.new marker : LineAssembler String).push (frame h s).1 = _ :=
    push_first rfl
  have hgap : gapOf (frame h s).1 (frame h s).2 0 = [] := by
    rw [gapOf_frame, Nat.sub_zero, slice_eq_nil _ (Nat.le_refl _)]
  have hfed : (waiting h marker s).feedGap [] = (waiting h marker s, []) := feedGap_none rfl rfl
  rw [feed_eq hpush]
  simp only [noPush, hgap, List.nil_append]
  exact Prod.ext (congrArg Prod.fst hfed) (congrArg Prod.snd hfed)

theorem run_waiting {s : List String} {rest : List (List String)} (hne : marker ≠ "")
    (hchain : (s :: rest).Pairwise (Evolves h)) (hmark : ∀ t ∈ s :: rest, Marked h m marker t)
    (hexact : RunExact h m (waiting h marker s) s rest) :
    (waiting h marker s).run (rest.map (frame h)) = afterMarker h m (rest.getLastD s) := by
  induction rest generalizing s with
  | nil => exact finish_waiting hne (hmark s List.mem_cons_self) hexact
  | cons s' rest ih =>
    obtain ⟨hframe, hrest⟩ := hexact
    have hchain' := (List.pairwise_cons.mp hchain).2
    have hmark' : ∀ t ∈ s' :: rest, Marked h m marker t := fun t ht =>
      hmark t (List.mem_cons_of_mem s ht)
    rw [List.map_cons, run, List.getLastD_cons]
    rcases feed_waiting hne (hmark s List.mem_cons_self) (hmark' s' List.mem_cons_self) hframe
      with ⟨hfed, hm⟩ | ⟨hfed, -⟩ | ⟨i, hi, hlt, hfed⟩
    · rw [hfed] at hrest ⊢
      rw [run_streaming hchain' hrest]
      exact afterMarker_eq (evolves_last hchain') hm
    · rw [hfed] at hrest ⊢
      exact ih hchain' hmark' hrest
    · rw [hfed] at hrest ⊢
      cases rest with
      | nil => exact (finish_armed rfl).trans (finish_cut hi)
      | cons s'' rest =>
        -- the cut baseline is shorter than the screen
        have hlen : ((screenRows "" h s').drop (i + 1)).length = h := hrest.1.1
        rw [List.length_drop, length_screenRows] at hlen
        omega

/-- In a run whose frames may all be read, exactly the rows after the marker come out, in order,
each once and with its final text; only the blank rows of the last screen are missing. -/
theorem run_exactlyOnce (h m : Nat) (marker : String) (shots : List (List String))
    (hne : marker ≠ "") (hchain : shots.Pairwise (Evolves h))
    (hmark : ∀ s ∈ shots, Marked h m marker s)
    (hexact : RunExact h m (LineAssembler.new marker) [] shots) :
    (LineAssembler.new marker : LineAssembler String).run (shots.map (frame h)) =
      afterMarker h m (shots.getLastD []) := by
  cases shots with
  | nil =>
    have hnone : afterMarker h m [] = [] := by
      simp [afterMarker, slice, tailOf]
    exact hnone.symm
  | cons s rest =>
    obtain ⟨-, hrest⟩ := hexact
    rw [feed_new] at hrest
    rw [List.map_cons, run, feed_new, List.getLastD_cons]
    exact run_waiting hne hchain hmark hrest

end Runs

/-- A terminal that only grows is one of those that may also rewrite rows. -/
theorem evolves_append (h : Nat) (s t : List String) : Evolves h s (s ++ t) := by
  induction t using List.reverseRecOn with
  | nil =>
    rw [List.append_nil]
    exact Relation.ReflTransGen.refl
  | append_singleton t row ih =>
    rw [← List.append_assoc]
    exact ih.tail (TermStep.append (s ++ t) row)

theorem MarkedTerminal.evolves_take (T : MarkedTerminal) (h : Nat) {n n' : Nat} (hle : n ≤ n') :
    Evolves h (T.rows.take n) (T.rows.take n') := by
  have hsplit : T.rows.take n' = T.rows.take n ++ (T.rows.take n').drop n := by
    have htake : T.rows.take n = (T.rows.take n').take n := by
      rw [List.take_take, Nat.min_eq_left hle]
    rw [htake, List.take_append_drop]
  rw [hsplit]
  exact evolves_append h _ _

theorem MarkedTerminal.marked_take (T : MarkedTerminal) (h n : Nat) :
    Marked h T.markerIndex T.marker (T.rows.take n) := by
  refine ⟨fun i row hrow hcontains => ?_, fun hgone => ?_⟩
  · rw [List.getElem?_take] at hrow
    split at hrow
    · exact (T.unique i row hrow).mp hcontains
    · cases hrow
  · have hlt : T.markerIndex < n := by
      rw [scrolled, List.length_take] at hgone
      omega
    have hrow := List.getElem?_eq_getElem T.markerIndex_lt
    refine ⟨_, ?_, (T.unique _ _ hrow).mpr rfl⟩
    rw [List.getElem?_take_of_lt hlt, hrow]

theorem run_exactlyOnce_scrolled :
    (LineAssembler.new scrolledMarker.marker : LineAssembler String).run
        (([2, 4, 5].map fun n => scrolledMarker.rows.take n).map (frame 2)) =
      afterMarker 2 1 (([2, 4, 5].map fun n => scrolledMarker.rows.take n).getLastD []) :=
  run_exactlyOnce 2 1 scrolledMarker.marker ([2, 4, 5].map fun n => scrolledMarker.rows.take n)
    scrolledMarker.marker_ne
    (List.pairwise_map.mpr (List.Pairwise.imp (scrolledMarker.evolves_take 2) (by decide)))
    (List.forall_mem_map.mpr fun n _ => scrolledMarker.marked_take 2 n)
    ⟨by decide +kernel, by decide +kernel, by decide +kernel, Or.inl (by decide +kernel)⟩

/-- A screen that is not full yet: the next row makes the whole old screen look departed, and the
rows that are still visible come out a second time, the marker among them. -/
theorem run_repeats_the_screen :
    (LineAssembler.new "@@shellflow:begin:r/s@@" : LineAssembler String).run
        ([["@@shellflow:begin:r/s@@", "a"], ["@@shellflow:begin:r/s@@", "a", "b"]].map (frame 3)) =
      ["a", "", "@@shellflow:begin:r/s@@", "a", "b"] ∧
    TermStep 3 ["@@shellflow:begin:r/s@@", "a"] ["@@shellflow:begin:r/s@@", "a", "b"] ∧
    afterMarker 3 0 ["@@shellflow:begin:r/s@@", "a", "b"] = ["a", "b"] ∧
    (LineAssembler.new "@@shellflow:begin:r/s@@" : LineAssembler String).run
        ([["@@shellflow:begin:r/s@@", "a"], ["@@shellflow:begin:r/s@@", "a", "b"]].map (frame 3)) ≠
      afterMarker 3 0 ["@@shellflow:begin:r/s@@", "a", "b"] :=
  ⟨by decide +kernel, TermStep.append _ _, by decide +kernel, by decide +kernel⟩

end Shellflow
