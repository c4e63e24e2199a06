import Mathlib.Algebra.BigOperators.Group.List.Basic
import Mathlib.Algebra.GroupWithZero.Nat
import Mathlib.Data.List.DropRight

/-! The line syntax of unit files: lines, comments, continued lines, sections and assignments. A text
that is read as the directives it was written from holds each of them on a line of its own. -/
namespace UnitFile

abbrev Text := List Char

section Lines

/-- The characters at which a line ends. -/
def isEol (c : Char) : Bool := c == '\n' || c == '\r' || c == '\x00'

theorem eolFree_of_all {l : List Char} (h : (l.all fun c => !isEol c) = true) :
    ∀ c ∈ l, isEol c = false := by
  intro c hc
  rw [← Bool.not_eq_true']
  exact List.all_eq_true.mp h c hc

def isBlank (c : Char) : Bool := c == ' ' || c == '\t'

def lines : Text → List Text
  | [] => []
  | c :: s =>
    if isEol c then [] :: lines s
    else
      match lines s with
      | [] => [[c]]
      | l :: ls => (c :: l) :: ls

def strip (s : Text) : Text := (s.dropWhile isBlank).rdropWhile isBlank

def isComment (l : Text) : Bool := (l.dropWhile isBlank).head?.any fun c => c == '#' || c == ';'

/-- The last backslash of the line is not escaped by the one in front of it. -/
def isContinued (l : Text) : Bool := (l.rtakeWhile (· == '\\')).length % 2 == 1

/-- Continued lines joined, a blank in the place of the backslash, and comments left out. -/
def logical : Option Text → List Text → List Text
  | none, [] => []
  | some joined, [] => [joined]
  | joined, l :: ls =>
    if isComment l then logical joined ls
    else
      let line := joined.getD [] ++ l
      if isContinued line then logical (some (line.dropLast ++ [' '])) ls
      else line :: logical none ls

end Lines

inductive Entry where
  | header (name : Text)
  | assignment (key value : Text)
  | malformed
deriving DecidableEq

def entry (line : Text) : Option Entry :=
  match strip line with
  | [] => none
  | c :: l =>
    if c = '[' then
      if l.getLast? = some ']' then some (.header l.dropLast) else some .malformed
    else
      match (c :: l).dropWhile fun d => d != '=' with
      | [] => some .malformed
      | _ :: value =>
        some (.assignment (strip ((c :: l).takeWhile fun d => d != '=')) (strip value))

def entries (text : Text) : List Entry := (logical none (lines text)).filterMap entry

/-- The characters of an entry; what is malformed counts for nothing. -/
def Entry.cost : Entry → Nat
  | .header name => name.length + 2
  | .assignment key value => key.length + 1 + value.length
  | .malformed => 0

section Strip
variable {s : Text}

theorem length_strip_le (s : Text) : (strip s).length ≤ s.length :=
  (List.rdropWhile_prefix isBlank _).length_le.trans (List.dropWhile_suffix isBlank).length_le

theorem strip_of_clean (hhead : s.head?.any isBlank = false) (hlast : s.getLast?.any isBlank = false) :
    strip s = s := by
  have hdrop : s.dropWhile isBlank = s := by
    cases s with
    | nil => rfl
    | cons c s => exact List.dropWhile_cons_of_neg (by simpa using hhead)
  rw [strip, hdrop, List.rdropWhile_eq_self_iff]
  intro hne hblank
  rw [List.getLast?_eq_some_getLast hne, Option.any_some, hblank] at hlast
  cases hlast

/-- Nothing was stripped. -/
theorem clean_of_strip (h : (strip s).length = s.length) :
    strip s = s ∧ s.head?.any isBlank = false ∧ s.getLast?.any isBlank = false := by
  have hsuffix : s.dropWhile isBlank <:+ s := List.dropWhile_suffix isBlank
  have hprefix : (s.dropWhile isBlank).rdropWhile isBlank <+: s.dropWhile isBlank :=
    List.rdropWhile_prefix isBlank _
  rw [strip] at h
  have hdrop : s.dropWhile isBlank = s :=
    hsuffix.eq_of_length (Nat.le_antisymm hsuffix.length_le (h ▸ hprefix.length_le))
  rw [hdrop] at h hprefix
  have hrdrop : s.rdropWhile isBlank = s := hprefix.eq_of_length h
  refine ⟨by rw [strip, hdrop, hrdrop], ?_, ?_⟩
  · cases s with
    | nil => rfl
    | cons c s => exact Bool.eq_false_iff.mpr (List.dropWhile_eq_self_iff.mp hdrop (Nat.succ_pos _))
  · cases hs : s.getLast? with
    | none => rfl
    | some c =>
      have hne : s ≠ [] := by
        rintro rfl
        cases hs
      rw [List.getLast?_eq_some_getLast hne] at hs
      obtain rfl := Option.some.inj hs
      exact Bool.eq_false_iff.mpr (List.rdropWhile_eq_self_iff.mp hrdrop hne)

/-- A blank at the end is stripped. -/
theorem length_strip_concat_lt (s : Text) {c : Char} (hc : isBlank c = true) :
    (strip (s ++ [c])).length ≤ s.length := by
  rw [strip, List.dropWhile_append]
  split
  · rename_i hempty
    rw [List.dropWhile_cons_of_pos hc]
    exact Nat.zero_le _
  · rw [List.rdropWhile_concat_pos _ _ _ hc]
    exact (List.rdropWhile_prefix isBlank _).length_le.trans
      (List.dropWhile_suffix isBlank).length_le

end Strip

theorem cost_entry_le {line : Text} {e : Entry} (h : entry line = some e) :
    e.cost ≤ (strip line).length := by
  unfold entry at h
  cases hstrip : strip line with
  | nil =>
    rw [hstrip] at h
    cases h
  | cons c l =>
    rw [hstrip] at h
    dsimp only at h
    by_cases hopen : c = '['
    · rw [if_pos hopen] at h
      by_cases hclose : l.getLast? = some ']'
      · rw [if_pos hclose] at h
        cases h
        have hne : l ≠ [] := by
          rintro rfl
          cases hclose
        have hpos := List.length_pos_iff.mpr hne
        rw [Entry.cost, List.length_dropLast, List.length_cons]
        omega
      · rw [if_neg hclose] at h
        cases h
        exact Nat.zero_le _
    · rw [if_neg hopen] at h
      have hsplit := List.takeWhile_append_dropWhile (p := fun d => d != '=') (l := c :: l)
      cases hdrop : (c :: l).dropWhile fun d => d != '=' with
      | nil =>
        rw [hdrop] at h
        cases h
        exact Nat.zero_le _
      | cons d value =>
        rw [hdrop] at h hsplit
        cases h
        have hkey := length_strip_le ((c :: l).takeWhile fun d => d != '=')
        have hvalue := length_strip_le value
        have hlen := congrArg List.length hsplit
        rw [List.length_append, List.length_cons] at hlen
        rw [Entry.cost]
        omega

section Counting
variable {s t : Text} {ls : List Text}

/-- The characters of some lines, their ends counted with them. -/
def extent (ls : List Text) : Nat := (ls.map fun l => l.length + 1).sum

@[simp] theorem extent_nil : extent [] = 0 := rfl

@[simp] theorem extent_cons (l : Text) (ls : List Text) :
    extent (l :: ls) = l.length + 1 + extent ls := by
  rw [extent, List.map_cons, List.sum_cons, ← extent]

@[simp] theorem extent_append (ls ms : List Text) : extent (ls ++ ms) = extent ls + extent ms := by
  rw [extent, List.map_append, List.sum_append, ← extent, ← extent]

def weight (es : List Entry) : Nat := (es.map fun e => e.cost + 1).sum

@[simp] theorem weight_nil : weight [] = 0 := rfl

@[simp] theorem weight_cons (e : Entry) (es : List Entry) :
    weight (e :: es) = e.cost + 1 + weight es := by
  rw [weight, List.map_cons, List.sum_cons, ← weight]

theorem lines_eol {c : Char} (hc : isEol c = true) (s : Text) : lines (c :: s) = [] :: lines s := by
  rw [lines, if_pos hc]

theorem lines_cons {c : Char} {l : Text} (hc : isEol c = false) (h : lines s = l :: ls) :
    lines (c :: s) = (c :: l) :: ls := by
  rw [lines, hc, if_neg Bool.false_ne_true, h]

theorem exists_lines_terminated (s : Text) : ∃ l ls, lines (s ++ ['\n']) = l :: ls := by
  cases s with
  | nil => exact ⟨[], [], rfl⟩
  | cons c s =>
    cases hc : isEol c with
    | true => exact ⟨[], _, lines_eol hc _⟩
    | false =>
      cases hs : lines (s ++ ['\n']) with
      | nil => exact ⟨[c], [], by rw [List.cons_append, lines, hc, if_neg Bool.false_ne_true, hs]⟩
      | cons l ls => exact ⟨c :: l, ls, lines_cons hc hs⟩

theorem lines_append_eol (s t : Text) :
    lines (s ++ '\n' :: t) = lines (s ++ ['\n']) ++ lines t := by
  induction s with
  | nil => rfl
  | cons c s ih =>
    cases hc : isEol c with
    | true =>
      rw [List.cons_append, List.cons_append, lines_eol hc, lines_eol hc, ih, List.cons_append]
    | false =>
      obtain ⟨l, ls, hs⟩ := exists_lines_terminated s
      rw [hs, List.cons_append] at ih
      rw [List.cons_append, List.cons_append, lines_cons hc ih, lines_cons hc hs, List.cons_append]

/-- A text that ends with a line has as many lines as ends of lines, and no other characters. -/
theorem count_lines_terminated (s : Text) :
    (lines (s ++ ['\n'])).length = s.countP isEol + 1 ∧
      extent (lines (s ++ ['\n'])) = s.length + 1 := by
  induction s with
  | nil => exact ⟨rfl, rfl⟩
  | cons c s ih =>
    obtain ⟨hlength, hextent⟩ := ih
    cases hc : isEol c with
    | true =>
      rw [List.cons_append, lines_eol hc, List.length_cons, List.countP_cons_of_pos hc, hlength,
        extent_cons, hextent, List.length_cons, List.length_nil]
      omega
    | false =>
      obtain ⟨l, ls, hs⟩ := exists_lines_terminated s
      rw [hs] at hlength hextent
      rw [List.cons_append, lines_cons hc hs, List.length_cons,
        List.countP_cons_of_neg (Bool.eq_false_iff.mp hc), List.length_cons]
      rw [extent_cons] at hextent ⊢
      rw [List.length_cons] at hlength ⊢
      omega

theorem lines_of_eolFree (h : ∀ c ∈ s, isEol c = false) : lines (s ++ ['\n']) = [s] := by
  induction s with
  | nil => rfl
  | cons c s ih =>
    exact lines_cons (h c List.mem_cons_self) (ih fun d hd => h d (List.mem_cons_of_mem c hd))

theorem isContinued_ne_nil {l : Text} (h : isContinued l = true) : l ≠ [] := by
  rintro rfl
  cases h

theorem weight_entry_le {line : Text} {es : List Entry} {bound rest : Nat}
    (hbound : (strip line).length + 1 ≤ bound) (hes : weight es ≤ rest) :
    weight ((entry line).toList ++ es) ≤ bound + rest := by
  cases he : entry line with
  | none =>
    rw [Option.toList_none, List.nil_append]
    omega
  | some e =>
    have hcost := cost_entry_le he
    rw [Option.toList_some, List.singleton_append, weight_cons]
    omega

theorem filterMap_entry_cons (line : Text) (ls : List Text) :
    (line :: ls).filterMap entry = (entry line).toList ++ ls.filterMap entry := by
  cases he : entry line with
  | none => rw [List.filterMap_cons_none he, Option.toList_none, List.nil_append]
  | some e => rw [List.filterMap_cons_some he, Option.toList_some, List.singleton_append]

/-- The line joined so far ends with the blank that took the place of a backslash. -/
def Pending (joined : Option Text) : Prop := ∀ line, joined = some line → ∃ start, line = start ++ [' ']

theorem pending_none : Pending none := nofun

theorem pending_some (start : Text) : Pending (some (start ++ [' '])) :=
  fun _ h => ⟨start, (Option.some.inj h).symm⟩

/-- What is read costs no more than the lines it is read from. -/
theorem weight_logical_le (ls : List Text) {joined : Option Text} (hjoined : Pending joined) :
    weight ((logical joined ls).filterMap entry) ≤ (joined.getD []).length + extent ls := by
  induction ls generalizing joined with
  | nil =>
    cases joined with
    | none => exact Nat.le_refl 0
    | some line =>
      obtain ⟨start, rfl⟩ := hjoined line rfl
      have hstrip := length_strip_concat_lt start (c := ' ') rfl
      rw [logical, filterMap_entry_cons]
      refine weight_entry_le ?_ (Nat.le_refl 0)
      rw [Option.getD_some, List.length_append, List.length_singleton]
      omega
  | cons l ls ih =>
    rw [extent_cons]
    by_cases hcomment : isComment l = true
    · rw [logical, if_pos hcomment]
      have := ih hjoined
      omega
    · rw [logical, if_neg hcomment]
      by_cases hcontinued : isContinued (joined.getD [] ++ l) = true
      · have hstep := ih (pending_some (joined.getD [] ++ l).dropLast)
        have hpos := List.length_pos_iff.mpr (isContinued_ne_nil hcontinued)
        rw [Option.getD_some, List.length_append, List.length_dropLast, List.length_singleton] at hstep
        rw [List.length_append] at hstep hpos
        rw [if_pos hcontinued]
        omega
      · have hstrip := length_strip_le (joined.getD [] ++ l)
        rw [List.length_append] at hstrip
        rw [if_neg hcontinued, filterMap_entry_cons, ← Nat.add_assoc]
        refine weight_entry_le ?_ ?_
        · omega
        · simpa using ih pending_none

/-- When nothing is lost each line stands by itself. -/
theorem logical_of_weight (h : weight ((logical none ls).filterMap entry) = extent ls) :
    logical none ls = ls ∧
      ∀ l ∈ ls, isComment l = false ∧ isContinued l = false ∧ (entry l).isSome = true := by
  induction ls with
  | nil => exact ⟨rfl, fun l hl => absurd hl List.not_mem_nil⟩
  | cons l ls ih =>
    have hrest : weight ((logical none ls).filterMap entry) ≤ extent ls := by
      simpa using weight_logical_le ls pending_none
    rw [extent_cons] at h
    cases hcomment : isComment l with
    | true =>
      rw [logical, if_pos hcomment] at h
      omega
    | false =>
      rw [logical, if_neg (Bool.eq_false_iff.mp hcomment), Option.getD_none, List.nil_append] at h
      cases hcontinued : isContinued l with
      | true =>
        have hpos := List.length_pos_iff.mpr (isContinued_ne_nil hcontinued)
        have hstep := weight_logical_le ls (pending_some l.dropLast)
        rw [Option.getD_some, List.length_append, List.length_dropLast, List.length_singleton] at hstep
        rw [if_pos hcontinued] at h
        omega
      | false =>
        rw [if_neg (Bool.eq_false_iff.mp hcontinued), filterMap_entry_cons] at h
        cases he : entry l with
        | none =>
          rw [he, Option.toList_none, List.nil_append] at h
          omega
        | some e =>
          have hcost := (cost_entry_le he).trans (length_strip_le l)
          rw [he, Option.toList_some, List.singleton_append, weight_cons] at h
          obtain ⟨hlogical, hlines⟩ := ih (by omega)
          refine ⟨?_, List.forall_mem_cons.mpr ⟨⟨hcomment, hcontinued, by rw [he]; rfl⟩, hlines⟩⟩
          rw [logical, if_neg (Bool.eq_false_iff.mp hcomment), Option.getD_none, List.nil_append,
            if_neg (Bool.eq_false_iff.mp hcontinued), hlogical]

end Counting

section Reading
variable {D : Type} (interpret : Entry → D)

/-- The line is one entry, of the given meaning. -/
structure Reads (l : Text) (d : D) : Prop where
  eolFree : ∀ c ∈ l, isEol c = false
  noComment : isComment l = false
  complete : isContinued l = false
  meaning : (entry l).map interpret = some d

/-- The lines of a text, each with its end. -/
def unlines (ls : List Text) : Text := ls.flatMap fun l => l ++ ['\n']

@[simp] theorem unlines_cons (l : Text) (ls : List Text) :
    unlines (l :: ls) = l ++ '\n' :: unlines ls := by
  rw [unlines, List.flatMap_cons, ← unlines, List.append_assoc, List.singleton_append]

theorem lines_unlines_append {ls : List Text} (s : Text)
    (h : ∀ l ∈ ls, ∀ c ∈ l, isEol c = false) :
    lines (unlines ls ++ s) = ls ++ lines s := by
  induction ls with
  | nil => rfl
  | cons l ls ih =>
    rw [unlines_cons, List.append_assoc, List.cons_append, lines_append_eol,
      lines_of_eolFree (h l List.mem_cons_self), ih fun m hm => h m (List.mem_cons_of_mem l hm)]
    rfl

theorem count_lines_unlines (ls : List Text) :
    (lines (unlines ls)).length = (ls.map fun l => l.countP isEol + 1).sum ∧
      extent (lines (unlines ls)) = extent ls := by
  induction ls with
  | nil => exact ⟨rfl, rfl⟩
  | cons l ls ih =>
    obtain ⟨hlength, hextent⟩ := ih
    obtain ⟨hline, hchars⟩ := count_lines_terminated l
    rw [unlines_cons, lines_append_eol, List.length_append, extent_append, hlength, hextent, hline,
      hchars, List.map_cons, List.sum_cons, extent_cons]
    exact ⟨rfl, rfl⟩

/-- Lines of one entry each, in front of a text. -/
theorem logical_append {ls : List Text} (ms : List Text)
    (h : ∀ l ∈ ls, isContinued l = false) :
    logical none (ls ++ ms) = (ls.filter fun l => !isComment l) ++ logical none ms := by
  induction ls with
  | nil => rfl
  | cons l ls ih =>
    have hrest := ih fun m hm => h m (List.mem_cons_of_mem l hm)
    rw [List.cons_append, logical]
    cases hcomment : isComment l with
    | true =>
      rw [if_pos rfl, hrest, List.filter_cons_of_neg (by rw [hcomment]; decide)]
    | false =>
      rw [if_neg Bool.false_ne_true, Option.getD_none, List.nil_append,
        if_neg (Bool.eq_false_iff.mp (h l List.mem_cons_self)), hrest,
        List.filter_cons_of_pos (by rw [hcomment]; decide), List.cons_append]

theorem entries_unlines_append {ls : List Text} (s : Text)
    (hfree : ∀ l ∈ ls, ∀ c ∈ l, isEol c = false) (hcomplete : ∀ l ∈ ls, isContinued l = false) :
    entries (unlines ls ++ s) = (ls.filter fun l => !isComment l).filterMap entry ++ entries s := by
  rw [entries, lines_unlines_append s hfree, logical_append _ hcomplete, List.filterMap_append,
    ← entries]

theorem filterMap_map_some {α β : Type} {f : α → Option β} {l : List α}
    (h : ∀ a ∈ l, (f a).isSome = true) : (l.filterMap f).map some = l.map f := by
  induction l with
  | nil => rfl
  | cons a l ih =>
    obtain ⟨b, hb⟩ := Option.isSome_iff_exists.mp (h a List.mem_cons_self)
    rw [List.filterMap_cons_some hb, List.map_cons, List.map_cons, hb,
      ih fun c hc => h c (List.mem_cons_of_mem a hc)]

theorem length_filterMap_isSome {α β : Type} {f : α → Option β} {l : List α}
    (h : ∀ a ∈ l, (f a).isSome = true) : (l.filterMap f).length = l.length := by
  have hmap := congrArg List.length (filterMap_map_some h)
  rwa [List.length_map, List.length_map] at hmap

/-- As many lines as entries: no line is cut in two. -/
theorem eolFree_of_sum {ls : List Text}
    (h : (ls.map fun l => l.countP isEol + 1).sum = ls.length) :
    ∀ l ∈ ls, ∀ c ∈ l, isEol c = false := by
  have hle : ∀ ms : List Text, ms.length ≤ (ms.map fun l => l.countP isEol + 1).sum := by
    intro ms
    induction ms with
    | nil => exact Nat.le_refl 0
    | cons m ms ih =>
      rw [List.map_cons, List.sum_cons, List.length_cons]
      omega
  induction ls with
  | nil => exact fun l hl => absurd hl List.not_mem_nil
  | cons l ls ih =>
    have hrest := hle ls
    rw [List.map_cons, List.sum_cons, List.length_cons] at h
    refine List.forall_mem_cons.mpr ⟨fun c hc => ?_, ih (by omega)⟩
    have hzero : l.countP isEol = 0 := by omega
    exact Bool.eq_false_iff.mpr (List.countP_eq_zero.mp hzero c hc)

theorem weight_interpret_le {cost : D → Nat} (hcost : ∀ e, cost (interpret e) ≤ e.cost)
    (es : List Entry) : ((es.map interpret).map fun d => cost d + 1).sum ≤ weight es := by
  induction es with
  | nil => exact Nat.le_refl 0
  | cons e es ih =>
    have := hcost e
    rw [List.map_cons, List.map_cons, List.sum_cons, weight_cons]
    omega

/-- Entries written line by line, when the lines hold no more than the entries do, are read back
exactly when each line is read as its entry. -/
theorem entries_unlines_iff {cost : D → Nat} (hcost : ∀ e, cost (interpret e) ≤ e.cost)
    (items : List (Text × D)) (hitems : ∀ p ∈ items, cost p.2 = p.1.length) :
    (entries (unlines (items.map Prod.fst))).map interpret = items.map Prod.snd ↔
      ∀ p ∈ items, Reads interpret p.1 p.2 := by
  have hmeaning : (∀ p ∈ items, (entry p.1).map interpret = some p.2) ↔
      ((items.map Prod.fst).map entry).map (Option.map interpret) = (items.map Prod.snd).map some := by
    rw [List.map_map, List.map_map, List.map_map, List.map_inj_left]
    rfl
  constructor
  · intro hread
    have hextent : extent (items.map Prod.fst) =
        (((items.map Prod.snd).map fun d => cost d + 1)).sum := by
      rw [extent, List.map_map, List.map_map]
      exact congrArg List.sum (List.map_congr_left fun p hp => by
        simp only [Function.comp_apply, hitems p hp])
    obtain ⟨hlength, hlines⟩ := count_lines_unlines (items.map Prod.fst)
    have hweight : weight ((logical none (lines (unlines (items.map Prod.fst)))).filterMap entry) =
        extent (lines (unlines (items.map Prod.fst))) := by
      refine Nat.le_antisymm ?_ ?_
      · simpa using weight_logical_le (lines (unlines (items.map Prod.fst))) pending_none
      · have hle := weight_interpret_le interpret hcost (entries (unlines (items.map Prod.fst)))
        rw [hread, ← hextent, ← hlines] at hle
        exact hle
    obtain ⟨hlogical, hsingle⟩ := logical_of_weight hweight
    rw [entries, hlogical] at hread
    have hcount := length_filterMap_isSome fun l hl => (hsingle l hl).2.2
    have hnumber := congrArg List.length hread
    rw [List.length_map, hcount, hlength, List.length_map] at hnumber
    have hfree : ∀ l ∈ items.map Prod.fst, ∀ c ∈ l, isEol c = false :=
      eolFree_of_sum (by rw [hnumber, List.length_map])
    have hsame := lines_unlines_append [] hfree
    rw [List.append_nil, lines, List.append_nil] at hsame
    rw [hsame] at hread hsingle
    have hall := filterMap_map_some fun l hl => (hsingle l hl).2.2
    have hmeant : ((items.map Prod.fst).map entry).map (Option.map interpret) =
        (items.map Prod.snd).map some := by
      rw [← hall, ← hread, List.map_map, List.map_map]
      rfl
    intro p hp
    have hmem := List.mem_map_of_mem (f := Prod.fst) hp
    exact ⟨hfree p.1 hmem, (hsingle p.1 hmem).1, (hsingle p.1 hmem).2.1, hmeaning.mpr hmeant p hp⟩
  · intro hreads
    have hforall : ∀ l ∈ items.map Prod.fst, ∃ p ∈ items, p.1 = l := fun l hl => List.mem_map.mp hl
    have hsame : lines (unlines (items.map Prod.fst)) = items.map Prod.fst := by
      have hfree : ∀ l ∈ items.map Prod.fst, ∀ c ∈ l, isEol c = false := fun l hl => by
        obtain ⟨p, hp, rfl⟩ := hforall l hl
        exact (hreads p hp).eolFree
      have happend := lines_unlines_append [] hfree
      rwa [List.append_nil, lines, List.append_nil] at happend
    have hcomplete : ∀ l ∈ items.map Prod.fst, isContinued l = false := fun l hl => by
      obtain ⟨p, hp, rfl⟩ := hforall l hl
      exact (hreads p hp).complete
    have hlogical := logical_append [] hcomplete
    have hfilter : ((items.map Prod.fst).filter fun l => !isComment l) = items.map Prod.fst := by
      refine List.filter_eq_self.mpr fun l hl => ?_
      obtain ⟨p, hp, rfl⟩ := hforall l hl
      rw [(hreads p hp).noComment, Bool.not_false]
    have hsome : ∀ l ∈ items.map Prod.fst, (entry l).isSome = true := by
      intro l hl
      obtain ⟨p, hp, rfl⟩ := hforall l hl
      have hmap := (hreads p hp).meaning
      cases hentry : entry p.1 with
      | none =>
        rw [hentry] at hmap
        cases hmap
      | some e => rfl
    rw [List.append_nil, hfilter, logical, List.append_nil] at hlogical
    rw [entries, hsame, hlogical]
    have hall := filterMap_map_some hsome
    have hmeant := hmeaning.mp fun p hp => (hreads p hp).meaning
    rw [← hall, List.map_map] at hmeant
    refine List.map_injective_iff.mpr (fun _ _ h => Option.some.inj h) ?_
    rw [← hmeant, List.map_map]
    rfl

end Reading

section Assignments
variable {key v s t : Text} {c : Char}

theorem rdropWhile_append_cons {p : Char → Bool} (hc : p c = false) (s t : Text) :
    (s ++ c :: t).rdropWhile p = s ++ c :: t.rdropWhile p := by
  rw [List.rdropWhile, List.rdropWhile, List.reverse_append, List.reverse_cons, List.append_assoc,
    List.singleton_append, List.dropWhile_append]
  have hstop : (c :: s.reverse).dropWhile p = c :: s.reverse :=
    List.dropWhile_cons_of_neg (Bool.eq_false_iff.mp hc)
  split
  · rename_i hempty
    rw [hstop, List.isEmpty_iff.mp hempty]
    simp
  · simp

theorem isContinued_append_cons (hc : c ≠ '\\') (s t : Text) :
    isContinued (s ++ c :: t) = isContinued t := by
  have htake : (s ++ c :: t).rtakeWhile (· == '\\') = t.rtakeWhile (· == '\\') := by
    rw [List.rtakeWhile, List.rtakeWhile, List.reverse_append, List.reverse_cons, List.append_assoc,
      List.singleton_append, List.takeWhile_append]
    split
    · rename_i hall
      rw [List.takeWhile_cons_of_neg (by simpa using hc), List.append_nil, List.reverse_reverse,
        (List.takeWhile_prefix _).eq_of_length hall, List.reverse_reverse]
    · rfl
  rw [isContinued, isContinued, htake]

/-- A key begins and ends with no blank and begins no comment and no section. -/
structure IsKey (key : Text) : Prop where
  head : key.head?.all fun c => !isBlank c && c != '#' && c != ';' && c != '['
  last : key.getLast?.any isBlank = false
  noEquals : '=' ∉ key
  nonempty : key ≠ []

theorem IsKey.isComment (h : IsKey key) : isComment (key ++ v) = false := by
  obtain ⟨c, k, rfl⟩ := List.exists_cons_of_ne_nil h.nonempty
  have hhead := h.head
  simp only [List.head?_cons, Option.all_some, Bool.and_eq_true, Bool.not_eq_true', bne_iff_ne] at hhead
  obtain ⟨⟨⟨hblank, hhash⟩, hsemi⟩, -⟩ := hhead
  rw [List.cons_append, UnitFile.isComment,
    List.dropWhile_cons_of_neg (Bool.eq_false_iff.mp hblank), List.head?_cons, Option.any_some,
    beq_false_of_ne hhash, beq_false_of_ne hsemi, Bool.or_false]

theorem entry_assignment (h : IsKey key) :
    entry (key ++ '=' :: v) = some (.assignment key (strip (v.rdropWhile isBlank))) := by
  obtain ⟨c, k, rfl⟩ := List.exists_cons_of_ne_nil h.nonempty
  have hhead := h.head
  simp only [List.head?_cons, Option.all_some, Bool.and_eq_true, Bool.not_eq_true', bne_iff_ne] at hhead
  obtain ⟨⟨⟨hblank, -⟩, -⟩, hopen⟩ := hhead
  have hstrip : strip (c :: k ++ '=' :: v) = c :: (k ++ '=' :: v.rdropWhile isBlank) := by
    rw [strip, List.cons_append, List.dropWhile_cons_of_neg (Bool.eq_false_iff.mp hblank),
      ← List.cons_append, rdropWhile_append_cons rfl, List.cons_append]
  have hkey : strip (c :: k) = c :: k :=
    strip_of_clean (by simpa using hblank) h.last
  have hne : ∀ d ∈ c :: k, (d != '=') = true := by
    intro d hd
    rw [bne_iff_ne]
    rintro rfl
    exact h.noEquals hd
  have htake : (c :: (k ++ '=' :: v.rdropWhile isBlank)).takeWhile (fun d => d != '=') = c :: k := by
    rw [← List.cons_append, List.takeWhile_append_of_pos hne, List.takeWhile_cons_of_neg (by decide),
      List.append_nil]
  have hdrop : (c :: (k ++ '=' :: v.rdropWhile isBlank)).dropWhile (fun d => d != '=') =
      '=' :: v.rdropWhile isBlank := by
    rw [← List.cons_append, List.dropWhile_append_of_pos hne, List.dropWhile_cons_of_neg (by decide)]
  rw [entry, hstrip]
  simp only [if_neg hopen, hdrop, htake, hkey]

theorem length_value_le (v : Text) : (strip (v.rdropWhile isBlank)).length ≤ v.length :=
  (length_strip_le _).trans (List.rdropWhile_prefix isBlank v).length_le

/-- A value of full length is the text behind the equals sign. -/
theorem value_full (h : (strip (v.rdropWhile isBlank)).length = v.length) :
    strip (v.rdropWhile isBlank) = v ∧ v.head?.any isBlank = false ∧
      v.getLast?.any isBlank = false := by
  have hle := (List.rdropWhile_prefix isBlank v).length_le
  have hstrip := length_strip_le (v.rdropWhile isBlank)
  have hsame : v.rdropWhile isBlank = v :=
    (List.rdropWhile_prefix isBlank v).eq_of_length (by omega)
  rw [hsame] at h ⊢
  exact clean_of_strip h

theorem value_of_clean (hhead : v.head?.any isBlank = false) (hlast : v.getLast?.any isBlank = false) :
    strip (v.rdropWhile isBlank) = v := by
  have hstrip := strip_of_clean hhead hlast
  have hle := length_value_le v
  rw [strip] at hstrip
  have hdrop : v.dropWhile isBlank = v := by
    refine (List.dropWhile_suffix isBlank).eq_of_length ?_
    have hlen := congrArg List.length hstrip
    have h1 := (List.rdropWhile_prefix isBlank (v.dropWhile isBlank)).length_le
    have h2 := (List.dropWhile_suffix (l := v) isBlank).length_le
    omega
  rw [hdrop] at hstrip
  rw [hstrip, strip_of_clean hhead hlast]

end Assignments

end UnitFile
