import Mathlib.Data.List.Forall2
import Shellflow.Lib.Str

/-! Texts whose characters are mapped to texts. A fixed character is mapped to itself and stands in
no other image, so a pattern of fixed characters is found in the image where it is in the text. -/
namespace Shellflow.Images

section Images
variable {Fixed : Char → Prop} {pat s : List Char} {us : List (List Char)}

def ImageOf (Fixed : Char → Prop) (c : Char) (u : List Char) : Prop :=
  u ≠ [] ∧ (Fixed c → u = [c]) ∧ (¬ Fixed c → ∀ d ∈ u, ¬ Fixed d)

def Maps (Fixed : Char → Prop) : List Char → List (List Char) → Prop := List.Forall₂ (ImageOf Fixed)

theorem imageOf_of_mem (h : Maps Fixed s us) {u : List Char} (hu : u ∈ us) :
    ∃ c, ImageOf Fixed c u := by
  induction h with
  | nil => cases hu
  | cons hc hs ih =>
    cases hu with
    | head => exact ⟨_, hc⟩
    | tail _ hu => exact ih hu

theorem isPrefixOf_flatten (h : Maps Fixed s us) (hpat : ∀ d ∈ pat, Fixed d) :
    pat.isPrefixOf? us.flatten =
      (pat.isPrefixOf? s).map fun _ => (us.drop pat.length).flatten := by
  induction pat generalizing s us with
  | nil => rfl
  | cons d pat ih =>
    rw [List.forall_mem_cons] at hpat
    cases h with
    | nil => rfl
    | @cons c u s us hc hs =>
      by_cases hfixed : Fixed c
      · rw [hc.2.1 hfixed, List.flatten_cons, List.singleton_append, List.isPrefixOf?,
          List.isPrefixOf?]
        split
        · exact ih hs hpat.2
        · rfl
      · obtain ⟨e, u, rfl⟩ := List.exists_cons_of_ne_nil hc.1
        have he : (d == e) = false := beq_false_of_ne fun heq =>
          hc.2.2 hfixed e List.mem_cons_self (heq ▸ hpat.1)
        have hd : (d == c) = false := beq_false_of_ne fun heq => hfixed (heq ▸ hpat.1)
        rw [List.flatten_cons, List.cons_append, List.isPrefixOf?, List.isPrefixOf?, he, hd]
        rfl

/-- Nothing is found that would begin in a text without the first character. -/
theorem splitOnceChars_skip {d : Char} (u t : List Char) (hu : d ∉ u) :
    Str.splitOnceChars (d :: pat) (u ++ t) =
      (Str.splitOnceChars (d :: pat) t).map fun p => (u ++ p.1, p.2) := by
  induction u with
  | nil => rw [List.nil_append]; exact (Option.map_id' (x := _)).symm
  | cons e u ih =>
    rw [List.mem_cons, not_or] at hu
    have hne : (d == e) = false := beq_false_of_ne hu.1
    rw [List.cons_append, Str.splitOnceChars, List.isPrefixOf?, hne, if_neg Bool.false_ne_true,
      ih hu.2, Option.map_map]
    rfl

/-- The first occurrence in the image is the image of the first occurrence. -/
theorem splitOnceChars_flatten (h : Maps Fixed s us) (hne : pat ≠ [])
    (hpat : ∀ d ∈ pat, Fixed d) :
    Str.splitOnceChars pat us.flatten = (Str.splitOnceChars pat s).map fun p =>
      ((us.take p.1.length).flatten, (us.drop (p.1.length + pat.length)).flatten) := by
  induction h with
  | nil => rw [List.flatten_nil, Str.splitOnceChars, if_neg hne, Option.map_none]
  | @cons c u s us hc hs ih =>
    have hprefix := isPrefixOf_flatten (.cons hc hs) hpat
    have himage : ∀ p : List Char × List Char,
        (u ++ (us.take p.1.length).flatten, (us.drop (p.1.length + pat.length)).flatten) =
          (((u :: us).take (p.1.length + 1)).flatten,
            ((u :: us).drop (p.1.length + 1 + pat.length)).flatten) := by
      intro p
      rw [List.take_succ_cons, List.flatten_cons, Nat.add_right_comm, List.drop_succ_cons]
    rw [Str.splitOnceChars]
    cases hhere : pat.isPrefixOf? (c :: s) with
    | some rest =>
      obtain ⟨e, u, rfl⟩ := List.exists_cons_of_ne_nil hc.1
      rw [hhere, List.flatten_cons, List.cons_append] at hprefix
      rw [List.flatten_cons, List.cons_append, Str.splitOnceChars, hprefix]
      simp
    | none =>
      rw [hhere, Option.map_none] at hprefix
      have hskip : Str.splitOnceChars pat (u :: us).flatten =
          (Str.splitOnceChars pat us.flatten).map fun p => (u ++ p.1, p.2) := by
        by_cases hfixed : Fixed c
        · obtain rfl := hc.2.1 hfixed
          rw [List.flatten_cons, List.singleton_append] at hprefix ⊢
          rw [Str.splitOnceChars, hprefix]
          rfl
        · obtain ⟨d, pat, rfl⟩ := List.exists_cons_of_ne_nil hne
          rw [List.flatten_cons]
          exact splitOnceChars_skip u us.flatten fun hd =>
            hc.2.2 hfixed d hd (hpat d List.mem_cons_self)
      rw [hskip, ih, Option.map_map, Option.map_map]
      exact congrArg (Option.map · _) (funext himage)

/-- A fixed character stands in its own image only. -/
theorem eq_singleton_of_mem (h : Maps Fixed s us) {e : Char} (he : Fixed e) {u : List Char}
    (hu : u ∈ us) (hmem : e ∈ u) : u = [e] := by
  obtain ⟨c, -, hfixed, hother⟩ := imageOf_of_mem h hu
  by_cases hc : Fixed c
  · rw [hfixed hc, List.mem_singleton] at hmem
    rw [hfixed hc, hmem]
  · exact absurd he (hother hc e hmem)

/-- What ends in such a character ends with the image of a character. -/
theorem flatten_eq_append_cons {e : Char} {y r : List Char} (h : us.flatten = y ++ e :: r)
    (he : ∀ u ∈ us, e ∈ u → u = [e]) :
    ∃ vs ws, us = vs ++ [e] :: ws ∧ vs.flatten = y ∧ ws.flatten = r := by
  induction us generalizing y with
  | nil =>
    have hnil : y ++ e :: r = [] := h.symm
    cases y <;> cases hnil
  | cons u us ih =>
    rw [List.forall_mem_cons] at he
    rw [List.flatten_cons] at h
    -- the character stands behind the first image, at its end, or in it
    rcases List.append_eq_append_iff.mp h with ⟨a, rfl, hus⟩ | ⟨a, rfl, hus⟩
    · obtain ⟨vs, ws, rfl, rfl, rfl⟩ := ih hus he.2
      exact ⟨u :: vs, ws, rfl, rfl, rfl⟩
    · cases a with
      | nil =>
        rw [List.append_nil] at *
        obtain ⟨vs, ws, rfl, hvs, rfl⟩ := ih (y := []) hus.symm he.2
        exact ⟨y :: vs, ws, rfl, by rw [List.flatten_cons, hvs, List.append_nil], rfl⟩
      | cons d a =>
        obtain ⟨rfl, rfl⟩ := List.cons.inj hus
        have hsingle := he.1 (List.mem_append_right y List.mem_cons_self)
        have hlen := congrArg List.length hsingle
        rw [List.length_append, List.length_cons, List.length_singleton] at hlen
        obtain rfl := List.eq_nil_of_length_eq_zero (show y.length = 0 by omega)
        obtain rfl := List.eq_nil_of_length_eq_zero (show a.length = 0 by omega)
        exact ⟨[], us, rfl, rfl, rfl⟩

end Images

end Shellflow.Images
