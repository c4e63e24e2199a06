import Shellflow.CredEnv.Render

/-! The fallback of the credential renderer as a shell script: it goes over the template line by
line, and over the credential files in each line. -/
namespace Shellflow
open Splice

/-- The lines the read builtin yields; it drops bytes of zero, and `cur` is the current line. -/
def templateLinesFrom (cur : Raw) : Raw → List Raw
  | [] => if cur = [] then [] else [cur]
  | b :: s =>
    if b = newline then cur :: templateLinesFrom [] s
    else if b = 0 then templateLinesFrom cur s
    else templateLinesFrom (cur ++ [b]) s

def templateLines (template : Raw) : List Raw := templateLinesFrom [] template

/-- The key of the first placeholder, as the regular expression finds it. -/
def firstRef : Raw → Option Raw
  | [] => none
  | b :: s =>
    match refAt (b :: s) with
    | some key => some key
    | none => firstRef s

theorem length_rest_lt {needle text before rest : Raw} (hne : needle ≠ [])
    (h : text.dropInfix? needle = some (before, rest)) : rest.length < text.length := by
  have hpos : 0 < needle.length := List.length_pos_iff.mpr hne
  rw [dropInfix?_eq h, List.length_append, List.length_append]
  omega

/-- The keys of a line that are reported as missing. What was matched is cut off up to its first
occurrence. -/
def reportMissing (isFile : Raw → Bool) (rest : Raw) : List Raw :=
  match firstRef rest with
  | none => []
  | some key =>
    match _h : rest.dropInfix? (placeholder key) with
    | none => []
    | some (_, rest') => (if isFile key then [] else [key]) ++ reportMissing isFile rest'
termination_by rest.length
decreasing_by exact length_rest_lt (placeholder_ne_nil key) _h

/-- The loop of `substitute`: the text before the first needle and the value go to `out`. -/
def substituteFrom (needle val : Raw) (hne : needle ≠ []) (out text : Raw) : Raw :=
  match _h : text.dropInfix? needle with
  | none => out ++ text
  | some (before, rest) => substituteFrom needle val hne (out ++ before ++ val) rest
termination_by text.length
decreasing_by exact length_rest_lt hne _h

def substitute (text needle val : Raw) (hne : needle ≠ []) : Raw :=
  substituteFrom needle val hne [] text

/-- A command substitution drops bytes of zero. -/
def shellValue (bytes : Raw) : Raw := bytes.filter (· ≠ 0)

def renderLine (files : List Credential) (line : Raw) : Raw :=
  files.foldl (fun line f =>
    if isVarName f.name then
      substitute line (placeholder f.name) (shellValue f.bytes) (placeholder_ne_nil f.name)
    else line) line

/-- Newlines are written between lines. -/
def writeLines (first : Bool) : List Raw → Raw
  | [] => []
  | line :: lines => (if first then line else newline :: line) ++ writeLines false lines

/-- The test of the last byte is on a command substitution, which is empty for a byte of zero. -/
def missingFinalNewline (template : Raw) : Bool :=
  match template.getLast? with
  | none => false
  | some b => b ≠ newline && b ≠ 0

/-- The content written, or the keys reported as missing. The files come in the order of pathname
expansion. -/
def cmdRender (files : List Credential) (template : Raw) : Except (List Raw) Raw :=
  let lines := templateLines template
  let missing := lines.flatMap (reportMissing fun key => files.any fun f => f.name == key)
  if missing ≠ [] then .error missing
  else
    let written := writeLines true (lines.map (renderLine files))
    .ok (if lines ≠ [] && !missingFinalNewline template then written ++ [newline] else written)

section Substitute

variable {needle val : Raw} {hne : needle ≠ []}

theorem substituteFrom_none {text : Raw} (out : Raw) (h : text.dropInfix? needle = none) :
    substituteFrom needle val hne out text = out ++ text := by
  rw [substituteFrom]
  split
  next => rfl
  next hfound => rw [h] at hfound; cases hfound

theorem substituteFrom_some {text before rest : Raw} (out : Raw)
    (h : text.dropInfix? needle = some (before, rest)) :
    substituteFrom needle val hne out text =
      substituteFrom needle val hne (out ++ before ++ val) rest := by
  rw [substituteFrom]
  split
  next hnone => rw [h] at hnone; cases hnone
  next hfound => rw [h] at hfound; cases hfound; rfl

theorem substituteFrom_out (out text : Raw) :
    substituteFrom needle val hne out text = out ++ substitute text needle val hne := by
  unfold substitute
  induction hn : text.length using Nat.strongRecOn generalizing out text with
  | ind n ih =>
    cases hfound : text.dropInfix? needle with
    | none => rw [substituteFrom_none out hfound, substituteFrom_none [] hfound]; rfl
    | some parts =>
      have hlt := hn ▸ length_rest_lt hne hfound
      rw [substituteFrom_some out hfound, substituteFrom_some [] hfound, ih _ hlt _ parts.2 rfl,
        ih _ hlt ([] ++ _ ++ _) parts.2 rfl]
      simp only [List.append_assoc, List.nil_append]

theorem substitute_some {text before rest : Raw}
    (h : text.dropInfix? needle = some (before, rest)) :
    substitute text needle val hne = before ++ val ++ substitute rest needle val hne := by
  rw [substitute, substituteFrom_some [] h, substituteFrom_out, List.nil_append]

theorem substitute_none {text : Raw} (h : text.dropInfix? needle = none) :
    substitute text needle val hne = text := by
  rw [substitute, substituteFrom_none [] h, List.nil_append]

theorem replaces_substitute :
    Replaces needle val fun text => substitute text needle val hne where
  nil := substitute_none (dropInfix?_nil_left hne)
  own rest := by rw [substitute_some (dropInfix?_start needle rest), List.nil_append]
  skip x s hskip := by
    have hcons := dropInfix?_cons hskip
    cases hfound : s.dropInfix? needle with
    | none =>
      rw [hfound] at hcons
      rw [substitute_none hcons, substitute_none hfound]
    | some parts =>
      rw [hfound] at hcons
      rw [substitute_some hcons, substitute_some hfound]
      rfl

end Substitute

theorem firstRef_none {s : Raw} (h : firstRef s = none) (isFile : Raw → Bool) :
    reportMissing isFile s = [] := by
  rw [reportMissing, h]

theorem reportMissing_some {isFile : Raw → Bool} {s key before rest : Raw} (h : firstRef s = some key)
    (hcut : s.dropInfix? (placeholder key) = some (before, rest)) :
    reportMissing isFile s = (if isFile key then [] else [key]) ++ reportMissing isFile rest := by
  rw [reportMissing, h]
  dsimp only
  split
  next hnone => rw [hcut] at hnone; cases hnone
  next hfound => rw [hcut] at hfound; cases hfound; rfl

theorem firstRef_some {s key : Raw} (h : firstRef s = some key) :
    isVarName key = true ∧ placeholder key <:+: s := by
  induction s with
  | nil => cases h
  | cons b s ih =>
    rw [firstRef] at h
    split at h
    next href =>
      cases h
      exact ⟨(refAt_some href).1, (refAt_some href).2.isInfix⟩
    next => exact ⟨(ih h).1, (ih h).2.trans (List.suffix_cons b s).isInfix⟩

/-- The report goes over the placeholders one by one. -/
theorem reportMissing_eq (isFile : Raw → Bool) (line : Raw) :
    reportMissing isFile line = (refs line).filter fun key => !isFile key := by
  induction line using piece_induction with
  | nil => rw [firstRef_none rfl]; rfl
  | ref key rest hname ih =>
    have hfirst : firstRef (placeholder key ++ rest) = some key := by
      have href := refAt_placeholder hname rest
      have hcons : placeholder key ++ rest = 0x24 :: (0x7b :: key ++ [closer] ++ rest) := rfl
      rw [hcons] at href ⊢
      rw [firstRef, href]
    rw [reportMissing_some hfirst (dropInfix?_start _ rest), ih, refs_ref hname, List.filter_cons]
    cases isFile key <;> rfl
  | lit b s href ih =>
    have hfirst : firstRef (b :: s) = firstRef s := by rw [firstRef, href]
    rw [refs_lit href, ← ih]
    cases hkey : firstRef s with
    | none => rw [firstRef_none (hfirst.trans hkey), firstRef_none hkey]
    | some key =>
      obtain ⟨hname, hin⟩ := firstRef_some hkey
      have hskip : ¬ placeholder key <+: b :: s := by
        intro hstart
        obtain ⟨rest, hrest⟩ := hstart
        rw [← hrest, refAt_placeholder hname] at href
        cases href
      have hcons := dropInfix?_cons hskip
      cases hfound : s.dropInfix? (placeholder key) with
      | none => exact absurd hin (not_infix_of_dropInfix? (placeholder_ne_nil key) hfound)
      | some parts =>
        rw [hfound] at hcons
        rw [reportMissing_some (hfirst.trans hkey) hcons, reportMissing_some hkey hfound]

end Shellflow
