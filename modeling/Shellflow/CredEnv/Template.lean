import Mathlib.Data.List.Induction
import Mathlib.Data.List.Sort
import Mathlib.Data.List.TakeWhile
import Shellflow.Lib.Slice
import Shellflow.Lib.Splice

/-! Credential templates. A text is its bytes: every pattern of the scanner is ASCII, so a byte of
a longer character never matches. -/
namespace Shellflow
open Slice Splice

abbrev Raw := List UInt8

/-- The bytes of a dollar and a brace. -/
def opener : Raw := [0x24, 0x7b]

def closer : UInt8 := 0x7d

def newline : UInt8 := 0x0a

def isNameStart (b : UInt8) : Bool := (0x41 ≤ b && b ≤ 0x5a) || (0x61 ≤ b && b ≤ 0x7a) || b == 0x5f

def isNameByte (b : UInt8) : Bool := isNameStart b || (0x30 ≤ b && b ≤ 0x39)

/-- The name that ends at a closing brace, at the start of what follows an opener. -/
def nameAt (after : Raw) : Option Raw :=
  let name := after.takeWhile isNameByte
  let tail := after.drop name.length
  if name.head?.any isNameStart && tail.head? == some closer then some name else none

/-- A placeholder and where it stands: from its dollar to behind its brace. -/
structure Placeholder where
  key : Raw
  start : Nat
  stop : Nat
deriving DecidableEq, Repr

/-- `pos` is the offset of what is left of the template, `cursor` the end of the last placeholder. -/
def placeholdersFrom (cursor pos : Nat) : Raw → List Placeholder
  | [] => []
  | b :: s =>
    if opener.isPrefixOf (b :: s) then
      if pos < cursor then placeholdersFrom cursor (pos + 1) s
      else
        match nameAt (s.drop 1) with
        | some name =>
          let stop := pos + 2 + name.length + 1
          ⟨name, pos, stop⟩ :: placeholdersFrom stop (pos + 1) s
        | none => placeholdersFrom cursor (pos + 1) s
    else placeholdersFrom cursor (pos + 1) s

def placeholders (content : Raw) : List Placeholder := placeholdersFrom 0 0 content

def pushKey (keys : List Raw) (p : Placeholder) : List Raw :=
  if p.key ∈ keys then keys else keys ++ [p.key]

/-- Every key once, at its first placeholder. -/
def templateKeys (content : Raw) : List Raw := (placeholders content).foldl pushKey []

structure MissingKey where
  key : Raw
  offset : Nat
deriving DecidableEq, Repr

/-- One entry for each key without a value, at its first placeholder. -/
def pushMissing (values : Raw → Option Raw) (missing : List MissingKey) (p : Placeholder) :
    List MissingKey :=
  if (values p.key).isSome then missing
  else if missing.any fun m => m.key == p.key then missing
  else missing ++ [⟨p.key, p.start⟩]

def missingKeys (values : Raw → Option Raw) (spans : List Placeholder) : List MissingKey :=
  spans.foldl (pushMissing values) []

def spliceFrom (content : Raw) (values : Raw → Option Raw) (pos : Nat) : List Placeholder → Raw
  | [] => content.drop pos
  | p :: spans =>
    slice pos p.start content ++ (values p.key).getD [] ++ spliceFrom content values p.stop spans

def renderTemplate (content : Raw) (values : Raw → Option Raw) : Except (List MissingKey) Raw :=
  let spans := placeholders content
  let missing := missingKeys values spans
  if missing ≠ [] then .error (missing.insertionSort fun a b => a.key ≤ b.key)
  else .ok (spliceFrom content values 0 spans)

/-- A template as what it means: bytes to keep and keys to fill in. -/
inductive Piece
  | lit (b : UInt8)
  | ref (key : Raw)
deriving DecidableEq, Repr

def placeholder (key : Raw) : Raw := opener ++ key ++ [closer]

def refAt (s : Raw) : Option Raw := if opener.isPrefixOf s then nameAt (s.drop 2) else none

/-- `skip` bytes belong to a placeholder that was read already. -/
def piecesFrom : Nat → Raw → List Piece
  | _, [] => []
  | skip + 1, _ :: s => piecesFrom skip s
  | 0, b :: s =>
    match refAt (b :: s) with
    | some key => .ref key :: piecesFrom (key.length + 2) s
    | none => .lit b :: piecesFrom 0 s

def pieces (content : Raw) : List Piece := piecesFrom 0 content

/-- The text of a piece when some keys are filled in. -/
def Piece.text (values : Raw → Option Raw) : Piece → Raw
  | .lit b => [b]
  | .ref key => (values key).getD (placeholder key)

def Piece.key? : Piece → Option Raw
  | .lit _ => none
  | .ref key => some key

def fill (values : Raw → Option Raw) (template : List Piece) : Raw := template.flatMap (·.text values)

theorem fill_cons (values : Raw → Option Raw) (piece : Piece) (l : List Piece) :
    fill values (piece :: l) = piece.text values ++ fill values l := rfl

/-- The keys a template refers to, as often as it does. -/
def refs (content : Raw) : List Raw := (pieces content).filterMap Piece.key?

/-- Letters, digits and underscores after a letter or an underscore. -/
def isVarName (name : Raw) : Bool := name.head?.any isNameStart && name.all isNameByte

theorem nameAt_some {after name : Raw} (h : nameAt after = some name) :
    isVarName name = true ∧ name ++ [closer] <+: after := by
  unfold nameAt at h
  dsimp only at h
  split at h
  case isFalse => cases h
  case isTrue hname =>
    cases h
    rw [Bool.and_eq_true] at hname
    obtain ⟨hstart, htail⟩ := hname
    refine ⟨?_, ?_⟩
    · rw [isVarName, hstart, Bool.true_and, List.all_eq_true]
      exact fun b hb => List.mem_takeWhile_imp hb
    · obtain ⟨rest, hrest⟩ := List.head?_eq_some_iff.mp (eq_of_beq htail)
      have hsplit := List.prefix_iff_eq_append.mp (List.takeWhile_prefix (l := after) isNameByte)
      refine ⟨rest, ?_⟩
      rw [hrest] at hsplit
      rw [List.append_assoc]
      exact hsplit

theorem nameAt_append {name : Raw} (h : isVarName name = true) (rest : Raw) :
    nameAt (name ++ closer :: rest) = some name := by
  rw [isVarName, Bool.and_eq_true, List.all_eq_true] at h
  have htake : (name ++ closer :: rest).takeWhile isNameByte = name := by
    rw [List.takeWhile_append_of_pos h.2, List.takeWhile_cons_of_neg (by decide), List.append_nil]
  unfold nameAt
  dsimp only
  rw [htake, List.drop_left, h.1]
  rfl

theorem refAt_some {s key : Raw} (h : refAt s = some key) :
    isVarName key = true ∧ placeholder key <+: s := by
  unfold refAt at h
  split at h
  case isFalse => cases h
  case isTrue hopen =>
    obtain ⟨after, rfl⟩ := List.isPrefixOf_iff_prefix.mp hopen
    have hafter : (opener ++ after).drop 2 = after := rfl
    rw [hafter] at h
    obtain ⟨hname, rest, hrest⟩ := nameAt_some h
    exact ⟨hname, rest, by rw [← hrest, placeholder, List.append_assoc, List.append_assoc,
      List.append_assoc]⟩

theorem refAt_placeholder {key : Raw} (h : isVarName key = true) (rest : Raw) :
    refAt (placeholder key ++ rest) = some key := by
  have hopen : opener.isPrefixOf (placeholder key ++ rest) = true := by
    rw [List.isPrefixOf_iff_prefix, placeholder, List.append_assoc, List.append_assoc]
    exact List.prefix_append _ _
  have hafter : (placeholder key ++ rest).drop 2 = key ++ closer :: rest := by
    show key ++ [closer] ++ rest = _
    rw [List.append_assoc]
    rfl
  rw [refAt, if_pos hopen, hafter]
  exact nameAt_append h rest

theorem piecesFrom_drop (skip : Nat) (s : Raw) : piecesFrom skip s = piecesFrom 0 (s.drop skip) := by
  induction s generalizing skip with
  | nil =>
    rw [List.drop_nil]
    cases skip with
    | zero => rfl
    | succ skip => rfl
  | cons b s ih =>
    cases skip with
    | zero => rfl
    | succ skip => rw [piecesFrom, ih, List.drop_succ_cons]

theorem pieces_ref {key : Raw} (h : isVarName key = true) (rest : Raw) :
    pieces (placeholder key ++ rest) = .ref key :: pieces rest := by
  have hcons : placeholder key ++ rest = 0x24 :: (0x7b :: key ++ [closer] ++ rest) := rfl
  have hdrop : (0x7b :: key ++ [closer] ++ rest).drop (key.length + 2) = rest := by
    rw [List.drop_left' (by simp)]
  have href := refAt_placeholder h rest
  rw [pieces, hcons, piecesFrom, ← hcons, href]
  dsimp only
  rw [piecesFrom_drop, hdrop, pieces]

theorem pieces_lit {b : UInt8} {s : Raw} (h : refAt (b :: s) = none) :
    pieces (b :: s) = .lit b :: pieces s := by
  rw [pieces, piecesFrom, h, pieces]

/-- Induction along the placeholders of a text. -/
theorem piece_induction {motive : Raw → Prop} (nil : motive [])
    (ref : ∀ key rest, isVarName key = true → motive rest → motive (placeholder key ++ rest))
    (lit : ∀ b s, refAt (b :: s) = none → motive s → motive (b :: s)) (s : Raw) : motive s := by
  induction hn : s.length using Nat.strongRecOn generalizing s with
  | ind n ih =>
    cases s with
    | nil => exact nil
    | cons b s =>
      cases h : refAt (b :: s) with
      | none => exact lit b s h (ih s.length (hn ▸ Nat.lt_succ_self _) s rfl)
      | some key =>
        obtain ⟨hname, rest, hrest⟩ := refAt_some h
        have hlen : rest.length < n := by
          rw [← hn, ← hrest, List.length_append, placeholder]
          simp only [List.length_append, List.length_cons]
          omega
        exact hrest ▸ ref key rest hname (ih rest.length hlen rest rfl)

theorem placeholder_ne_nil (key : Raw) : placeholder key ≠ [] := List.cons_ne_nil _ _

theorem refs_ref {key : Raw} (h : isVarName key = true) (rest : Raw) :
    refs (placeholder key ++ rest) = key :: refs rest := by
  rw [refs, pieces_ref h]
  rfl

theorem refs_lit {b : UInt8} {s : Raw} (h : refAt (b :: s) = none) : refs (b :: s) = refs s := by
  rw [refs, pieces_lit h]
  rfl

theorem notMem_placeholder {key : Raw} {b : UInt8} (hname : isVarName key = true)
    (hb : isNameByte b = false) (hother : b ∉ opener ++ [closer]) : b ∉ placeholder key := by
  intro h
  rw [isVarName, Bool.and_eq_true, List.all_eq_true] at hname
  rw [placeholder, List.mem_append, List.mem_append] at h
  rw [List.mem_append] at hother
  cases h with
  | inl h =>
    cases h with
    | inl hopen => exact hother (.inl hopen)
    | inr hkey =>
      rw [hname.2 b hkey] at hb
      cases hb
  | inr hclose => exact hother (.inr hclose)

/-- No placeholder goes over a newline. -/
theorem pieces_newline (line rest : Raw) :
    pieces (line ++ newline :: rest) = pieces line ++ .lit newline :: pieces rest := by
  have hnone : ∀ b s, refAt (b :: s) = none → refAt (b :: s ++ newline :: rest) = none := by
    intro b s href
    cases hsome : refAt (b :: s ++ newline :: rest) with
    | none => rfl
    | some key =>
      obtain ⟨hname, hstart⟩ := refAt_some hsome
      have hkey := prefix_of_notMem (notMem_placeholder hname (by decide) (by decide)) hstart
      obtain ⟨more, hmore⟩ := hkey
      rw [← hmore, refAt_placeholder hname] at href
      cases href
  induction line using piece_induction with
  | nil => exact pieces_lit rfl
  | ref key s hname ih => rw [List.append_assoc, pieces_ref hname, pieces_ref hname, ih]; rfl
  | lit b s href ih =>
    have hlit := hnone b s href
    rw [pieces_lit href]
    rw [List.cons_append] at hlit ⊢
    rw [pieces_lit hlit, ih]
    rfl

/-- A byte that is in no placeholder is kept. -/
theorem lit_mem_pieces {content : Raw} {b : UInt8} (hb : isNameByte b = false)
    (hother : b ∉ opener ++ [closer]) (h : b ∈ content) : .lit b ∈ pieces content := by
  induction content using piece_induction with
  | nil => cases h
  | ref key rest hname ih =>
    rw [pieces_ref hname]
    cases List.mem_append.mp h with
    | inl hkey => exact absurd hkey (notMem_placeholder hname hb hother)
    | inr hrest => exact List.mem_cons_of_mem _ (ih hrest)
  | lit b' s href ih =>
    rw [pieces_lit href]
    cases List.mem_cons.mp h with
    | inl heq => exact heq ▸ List.mem_cons_self
    | inr hrest => exact List.mem_cons_of_mem _ (ih hrest)

/-- Without values a template stands as it is. -/
theorem fill_none (content : Raw) : fill (fun _ => none) (pieces content) = content := by
  induction content using piece_induction with
  | nil => rfl
  | ref key rest hname ih => rw [pieces_ref hname, fill_cons, ih]; rfl
  | lit b s href ih => rw [pieces_lit href, fill_cons, ih]; rfl

/-- A part that starts with a dollar does not start behind the first byte of a placeholder. -/
theorem infix_append_of_dollar {part before rest : Raw} (hbefore : (0x24 : UInt8) ∉ before)
    (h : 0x24 :: part <:+: before ++ rest) : 0x24 :: part <:+: rest := by
  induction before with
  | nil => exact h
  | cons b before ih =>
    rw [List.mem_cons, not_or] at hbefore
    cases List.infix_cons_iff.mp h with
    | inl hstart => exact absurd (List.cons_prefix_cons.mp hstart).1 hbefore.1
    | inr hlater => exact ih hbefore.2 hlater

theorem dollar_notMem {key : Raw} (hname : isVarName key = true) :
    (0x24 : UInt8) ∉ 0x7b :: (key ++ [closer]) := by
  rw [isVarName, Bool.and_eq_true, List.all_eq_true] at hname
  rw [List.mem_cons, List.mem_append, List.mem_singleton]
  rintro (h | h | h)
  · cases h
  · exact absurd (hname.2 _ h) (by decide)
  · cases h

/-- The scanner finds every placeholder that stands in the text. -/
theorem mem_refs {key content : Raw} :
    key ∈ refs content ↔ isVarName key = true ∧ placeholder key <:+: content := by
  induction content using piece_induction with
  | nil => simp [refs, pieces, piecesFrom, placeholder, opener]
  | ref key' rest hname ih =>
    rw [refs_ref hname, List.mem_cons, ih]
    constructor
    · rintro (rfl | ⟨hkey, hinfix⟩)
      · exact ⟨hname, (List.prefix_append _ _).isInfix⟩
      · exact ⟨hkey, hinfix.trans (List.suffix_append _ _).isInfix⟩
    · rintro ⟨hkey, hinfix⟩
      have hcons : placeholder key' ++ rest = 0x24 :: (0x7b :: (key' ++ [closer]) ++ rest) := rfl
      rw [hcons] at hinfix
      cases List.infix_cons_iff.mp hinfix with
      | inl hstart =>
        obtain ⟨more, hmore⟩ := hstart
        have href := refAt_placeholder hname rest
        rw [hcons, ← hmore, refAt_placeholder hkey, Option.some_inj] at href
        exact .inl href
      | inr hlater => exact .inr ⟨hkey, infix_append_of_dollar (dollar_notMem hname) hlater⟩
  | lit b s href ih =>
    rw [refs_lit href, ih]
    refine and_congr_right fun hkey => ?_
    constructor
    · exact fun h => List.infix_cons h
    · intro h
      cases List.infix_cons_iff.mp h with
      | inl hstart =>
        obtain ⟨more, hmore⟩ := hstart
        rw [← hmore, refAt_placeholder hkey] at href
        cases href
      | inr hlater => exact hlater

/-- Where the placeholders of the pieces stand, from an offset on. -/
def locate (pos : Nat) : List Piece → List Placeholder
  | [] => []
  | .lit _ :: l => locate (pos + 1) l
  | .ref key :: l =>
    ⟨key, pos, pos + (placeholder key).length⟩ :: locate (pos + (placeholder key).length) l

theorem length_placeholder (key : Raw) : (placeholder key).length = key.length + 3 := by
  simp only [placeholder, opener, List.length_append, List.length_cons, List.length_nil]
  omega

theorem placeholdersFrom_eq (cursor pos : Nat) (s : Raw) :
    placeholdersFrom cursor pos s = locate (max cursor pos) (piecesFrom (cursor - pos) s) := by
  induction s generalizing cursor pos with
  | nil => cases cursor - pos <;> rfl
  | cons b s ih =>
    have hnext := ih cursor (pos + 1)
    by_cases hcursor : pos < cursor
    · obtain ⟨skip, hskip⟩ : ∃ skip, cursor - pos = skip + 1 := ⟨cursor - pos - 1, by omega⟩
      have hskip' : cursor - (pos + 1) = skip := by omega
      have hmax : max cursor (pos + 1) = max cursor pos := by omega
      rw [hskip', hmax] at hnext
      rw [placeholdersFrom, if_pos hcursor, hskip, piecesFrom, hnext, ite_self]
    · have hzero : cursor - pos = 0 := by omega
      have hzero' : cursor - (pos + 1) = 0 := by omega
      have hmax : max cursor pos = pos := by omega
      have hmax' : max cursor (pos + 1) = pos + 1 := by omega
      rw [hzero', hmax'] at hnext
      rw [placeholdersFrom, if_neg hcursor, hzero, hmax, piecesFrom, refAt]
      by_cases hopen : opener.isPrefixOf (b :: s) = true
      · have hdrop : (b :: s).drop 2 = s.drop 1 := rfl
        rw [if_pos hopen, if_pos hopen, hdrop]
        cases nameAt (s.drop 1) with
        | none => exact hnext
        | some name =>
          have hstop : pos + 2 + name.length + 1 = pos + (placeholder name).length := by
            rw [length_placeholder]
            omega
          have hskip : pos + (placeholder name).length - (pos + 1) = name.length + 2 := by
            rw [length_placeholder]
            omega
          have hmax : max (pos + (placeholder name).length) (pos + 1) =
              pos + (placeholder name).length := by
            rw [length_placeholder]
            omega
          dsimp only
          rw [hstop, ih, hskip, hmax, locate]
      · rw [if_neg hopen, if_neg hopen]
        exact hnext

theorem placeholders_eq (content : Raw) : placeholders content = locate 0 (pieces content) :=
  placeholdersFrom_eq 0 0 content

theorem map_key_locate (pos : Nat) (l : List Piece) :
    (locate pos l).map Placeholder.key = l.filterMap Piece.key? := by
  induction l generalizing pos with
  | nil => rfl
  | cons piece l ih =>
    cases piece with
    | lit b => exact ih _
    | ref key => exact congrArg (key :: ·) (ih _)

theorem mem_foldl_pushKey {key : Raw} (keys : List Raw) (spans : List Placeholder) :
    key ∈ spans.foldl pushKey keys ↔ key ∈ keys ∨ key ∈ spans.map Placeholder.key := by
  induction spans generalizing keys with
  | nil => simp
  | cons p spans ih =>
    rw [List.foldl_cons, ih, List.map_cons, List.mem_cons, pushKey]
    split
    · next hp =>
      refine ⟨Or.imp_right .inr, ?_⟩
      rintro (h | rfl | h)
      · exact .inl h
      · exact .inl hp
      · exact .inr h
    · rw [List.mem_append, List.mem_singleton, or_assoc]

theorem mem_templateKeys {key content : Raw} : key ∈ templateKeys content ↔ key ∈ refs content := by
  rw [templateKeys, mem_foldl_pushKey, placeholders_eq, map_key_locate, refs]
  simp

/-- The spans are cut out of the template and the values put in between. -/
theorem spliceFrom_locate {content : Raw} {values : Raw → Option Raw} {start pos : Nat}
    {l : List Piece} (hstart : start ≤ pos) (hrest : content.drop pos = fill (fun _ => none) l)
    (hvalues : ∀ key ∈ l.filterMap Piece.key?, (values key).isSome) :
    spliceFrom content values start (locate pos l) = slice start pos content ++ fill values l := by
  induction l generalizing start pos with
  | nil =>
    rw [locate, spliceFrom, ← slice_append_drop content hstart, hrest]
    rfl
  | cons piece l ih =>
    cases piece with
    | lit b =>
      have hnext : content.drop (pos + 1) = fill (fun _ => none) l := by
        rw [← List.drop_drop, hrest]
        rfl
      have hbyte : slice pos (pos + 1) content = [b] := by
        rw [slice, List.drop_take, hrest, Nat.add_sub_cancel_left]
        rfl
      rw [locate, ih (by omega) hnext hvalues,
        ← slice_append_slice content hstart (Nat.le_succ pos), hbyte, List.append_assoc]
      rfl
    | ref key =>
      have hnext : content.drop (pos + (placeholder key).length) = fill (fun _ => none) l := by
        rw [← List.drop_drop, hrest]
        exact List.drop_left
      obtain ⟨value, hvalue⟩ := Option.isSome_iff_exists.mp (hvalues key List.mem_cons_self)
      rw [locate, spliceFrom, ih (Nat.le_refl _) hnext
        (fun k hk => hvalues k (List.mem_cons_of_mem key hk)), slice_eq_nil content (Nat.le_refl _),
        fill_cons, Piece.text, hvalue, List.append_assoc]
      rfl

theorem missingKeys_concat (values : Raw → Option Raw) (spans : List Placeholder) (p : Placeholder) :
    missingKeys values (spans ++ [p]) = pushMissing values (missingKeys values spans) p := by
  rw [missingKeys, List.foldl_append, ← missingKeys]
  rfl

theorem missingKeys_eq_nil_iff {values : Raw → Option Raw} {spans : List Placeholder} :
    missingKeys values spans = [] ↔ ∀ p ∈ spans, (values p.key).isSome := by
  induction spans using List.reverseRecOn with
  | nil => simp [missingKeys]
  | append_singleton spans p ih =>
    rw [missingKeys_concat, List.forall_mem_append, List.forall_mem_singleton, ← ih, pushMissing]
    by_cases hvalue : (values p.key).isSome = true
    · rw [if_pos hvalue, and_iff_left hvalue]
    · rw [if_neg hvalue]
      refine ⟨fun h => ?_, fun h => absurd h.2 hvalue⟩
      split at h
      case isTrue hknown =>
        rw [h] at hknown
        cases hknown
      case isFalse => exact absurd h (List.append_ne_nil_of_right_ne_nil _ (List.cons_ne_nil _ _))

/-- The renderer fills in every key, or refuses because one has no value. -/
theorem renderTemplate_toOption (content : Raw) (values : Raw → Option Raw) :
    (renderTemplate content values).toOption =
      if ∀ key ∈ refs content, (values key).isSome then some (fill values (pieces content))
      else none := by
  have hkeys : (∀ p ∈ placeholders content, (values p.key).isSome) ↔
      ∀ key ∈ refs content, (values key).isSome := by
    rw [refs, ← map_key_locate 0, ← placeholders_eq, List.forall_mem_map]
  have hmissing := missingKeys_eq_nil_iff.trans hkeys
  unfold renderTemplate
  by_cases hall : ∀ key ∈ refs content, (values key).isSome
  · rw [if_pos hall]
    dsimp only
    rw [if_neg (not_not.mpr (hmissing.mpr hall)), placeholders_eq,
      spliceFrom_locate (Nat.le_refl 0) (fill_none content).symm hall]
    rfl
  · rw [if_neg hall]
    dsimp only
    rw [if_pos (fun h => hall (hmissing.mp h))]
    rfl

end Shellflow
