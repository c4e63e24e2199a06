import Shellflow.Lib.Assoc
import Shellflow.Lib.BufRead
import Shellflow.Rbatch

/-! The reader of a batch's answers, fed with the lines of a response that may be cut anywhere. -/
namespace Shellflow
open Shell Bytes

/-- The answer to one query. -/
structure Section where
  rc : Int
  body : String
deriving DecidableEq

/-- An end marker: the id of its query. -/
def Batch.matchEnd (b : Batch) (line : String) : Option String :=
  Str.stripPrefix line ("__SFW_" ++ (b.nonce ++ "_E_"))

/-- The answers so far, the one being collected, and the lines of its body. -/
structure AnswerReader where
  sections : List (String × Section)
  current : Option (String × Int)
  body : List String

namespace AnswerReader

def new : AnswerReader := ⟨[], none, []⟩

/-- Store the answer being collected, if any. -/
def flush (r : AnswerReader) : AnswerReader :=
  match r.current with
  | some (id, rc) => ⟨Assoc.overwrite r.sections (id, ⟨rc, Str.join "\n" r.body⟩), none, []⟩
  | none => { r with body := [] }

def pushLine (b : Batch) (r : AnswerReader) (line : String) : AnswerReader :=
  match b.matchBegin line with
  | some p => { r.flush with current := some p }
  | none =>
    match b.matchEnd line with
    | some id => if r.current.any fun c => c.1 == id then r.flush else r
    | none => if r.current.isSome then { r with body := r.body ++ [line] } else r

def finish (r : AnswerReader) : List (String × Section) := r.flush.sections

end AnswerReader

/-- The answers read from the bytes of a response. -/
def Batch.answers (b : Batch) (bytes : List UInt8) : List (String × Section) :=
  ((BufRead.lines bytes).foldl (AnswerReader.pushLine b) .new).finish

/-- What the target says to one query. -/
structure Answer where
  id : String
  rc : Nat
  body : String
deriving DecidableEq

namespace Answer

/-- The text that a section of the batch prints. -/
def text (b : Batch) (a : Answer) : String :=
  b.beg a.id ++ (" " ++ (toString a.rc ++ ("\n" ++ (a.body ++ ("\n" ++ (b.fin a.id ++ "\n"))))))

theorem reportCmd_prints {W : Type*} {tools : Tools W} {i : String} {s : Shell.State W} (b : Batch)
    (a : Answer) (hs : NoFuns s) (hrc : s.vars "rc" = some (toString a.rc))
    (hout : s.vars "out" = some a.body) :
    Ends tools (reportCmd b a.id) i s fun o => textOf .out o.out = a.text b := by
  refine (reportCmd_ends b a.id hs).weaken fun o ho => ?_
  rw [ho.2.2, hrc, hout]
  rfl

/-- The first line, up to the first digit of the status: from there on the marker is one. -/
def opened (b : Batch) (a : Answer) : List Char :=
  (b.beg a.id).toList ++ ' ' :: (toString a.rc).toList.take 1

def header (b : Batch) (a : Answer) : List Char := (b.beg a.id).toList ++ ' ' :: (toString a.rc).toList

/-- The whole text but for the newline behind the end marker. -/
def framed (b : Batch) (a : Answer) : List Char :=
  a.header b ++ '\n' :: (a.body.toList ++ '\n' :: (b.fin a.id).toList)

def bodyLines (a : Answer) : List (List Char) := Str.splitCharFrom '\n' [] a.body.toList

end Answer

/-- The characters of a response. -/
def Batch.response (b : Batch) (l : List Answer) : List Char := l.flatMap fun a => (a.text b).toList

/-- A response as the script of the batch prints it: one answer for each id, and no line of a body
that starts like a marker of this batch. -/
structure WellFormed (b : Batch) (l : List Answer) : Prop where
  ids : (l.map Answer.id).Nodup
  words : ∀ a ∈ l, ∀ c ∈ a.id.toList, Str.isWhitespace c = false
  status : ∀ a ∈ l, a.rc < 2147483648
  unmarked : ∀ a ∈ l, ∀ line ∈ a.bodyLines,
    ¬ (b.beg "").toList <+: line ∧ ¬ (b.fin "").toList <+: line

section Lines
variable {b : Batch} {a : Answer} {l : List Answer}

def unlines (lines : List (List Char)) : List Char := lines.flatMap fun line => line ++ ['\n']

def Answer.lines (b : Batch) (a : Answer) : List (List Char) :=
  a.header b :: (a.bodyLines ++ [(b.fin a.id).toList])

theorem Answer.text_toList (b : Batch) (a : Answer) : (a.text b).toList = a.framed b ++ ['\n'] := by
  simp [text, framed, header]

theorem Answer.text_eq_unlines (b : Batch) (a : Answer) : (a.text b).toList = unlines (a.lines b) := by
  have hbody : unlines a.bodyLines = a.body.toList ++ ['\n'] :=
    Str.unlines_splitCharFrom '\n' [] a.body.toList
  have happend : unlines (a.lines b) =
      a.header b ++ ['\n'] ++ (unlines a.bodyLines ++ ((b.fin a.id).toList ++ ['\n'])) := by
    simp [unlines, lines]
  rw [happend, hbody, text_toList, framed]
  simp

theorem Batch.beg_toList (b : Batch) (id : String) :
    (b.beg id).toList = (b.beg "").toList ++ id.toList := by
  simp [Batch.beg]

theorem Batch.fin_toList (b : Batch) (id : String) :
    (b.fin id).toList = (b.fin "").toList ++ id.toList := by
  simp [Batch.fin]

/-- No text starts like a begin marker and like an end marker. -/
theorem beg_fin_disjoint {line : List Char} (hbeg : (b.beg "").toList <+: line)
    (hfin : (b.fin "").toList <+: line) : False := by
  have hlen : (b.beg "").toList.length = (b.fin "").toList.length := by simp [Batch.beg, Batch.fin]
  have heq : (b.beg "").toList = (b.fin "").toList := by
    cases List.prefix_or_prefix_of_prefix hbeg hfin with
    | inl h => exact h.eq_of_length hlen
    | inr h => exact (h.eq_of_length hlen.symm).symm
  simp [Batch.beg, Batch.fin] at heq

theorem matchBegin_eq_none {line : List Char} (h : ¬ (b.beg "").toList <+: line) :
    b.matchBegin (String.ofList line) = none := by
  have hopen : ("__SFW_" ++ (b.nonce ++ "_B_")).toList = (b.beg "").toList := by simp [Batch.beg]
  rw [Batch.matchBegin, Str.stripPrefix_eq_none (by rwa [hopen, String.toList_ofList]),
    Option.bind_none]

theorem matchEnd_eq_none {line : List Char} (h : ¬ (b.fin "").toList <+: line) :
    b.matchEnd (String.ofList line) = none := by
  have hopen : ("__SFW_" ++ (b.nonce ++ "_E_")).toList = (b.fin "").toList := by simp [Batch.fin]
  rw [Batch.matchEnd, Str.stripPrefix_eq_none (by rwa [hopen, String.toList_ofList])]

theorem matchEnd_fin (b : Batch) (id : String) : b.matchEnd (b.fin id) = some id := by
  have happend : b.fin id = "__SFW_" ++ (b.nonce ++ "_E_") ++ id := by
    apply String.toList_inj.mp
    simp [Batch.fin]
  rw [Batch.matchEnd, happend, Str.stripPrefix_append]

/-- A line that is no marker. -/
def NoMarker (b : Batch) (line : String) : Prop := b.matchBegin line = none ∧ b.matchEnd line = none

/-- A part of a begin marker without a digit of the status is no marker. -/
theorem noMarker_of_header {part : List Char} (hid : ∀ c ∈ a.id.toList, Str.isWhitespace c = false)
    (hpart : part <+: a.header b) (hopen : ¬ a.opened b <+: part) : NoMarker b (String.ofList part) := by
  have hbegin : (b.beg "").toList <+: a.header b := by
    rw [Answer.header, b.beg_toList a.id, List.append_assoc]
    exact List.prefix_append _ _
  have hend : ¬ (b.fin "").toList <+: part := fun h => beg_fin_disjoint hbegin (h.trans hpart)
  refine ⟨?_, matchEnd_eq_none hend⟩
  obtain ⟨d, hd⟩ : ∃ d, (toString a.rc).toList.take 1 = [d] := by
    obtain ⟨d, ds, hds⟩ := List.exists_cons_of_ne_nil (Str.toString_toList_ne_nil a.rc)
    exact ⟨d, by rw [hds]; rfl⟩
  have hopened : a.opened b = ((b.beg a.id).toList ++ [' ']) ++ [d] := by
    rw [Answer.opened, hd]
    simp
  have hheader : a.opened b <+: a.header b := by
    rw [Answer.opened, Answer.header]
    refine (List.prefix_append_right_inj _).mpr (List.cons_prefix_cons.mpr ⟨rfl, ?_⟩)
    exact List.take_prefix 1 _
  have hshort : part <+: (b.beg a.id).toList ++ [' '] := by
    cases List.prefix_or_prefix_of_prefix hpart hheader with
    | inl h =>
      rw [hopened] at h
      cases List.prefix_concat_iff.mp h with
      | inl heq => exact absurd (hopened ▸ heq ▸ List.prefix_rfl) hopen
      | inr h => exact h
    | inr h => exact absurd h hopen
  have hspace : ' ' ∉ a.id.toList := fun h => absurd (hid ' ' h) (by decide)
  cases List.prefix_concat_iff.mp hshort with
  | inl heq =>
    have htext : String.ofList part = ("__SFW_" ++ (b.nonce ++ "_B_")) ++
        (a.id ++ (String.singleton ' ' ++ "")) := by
      apply String.toList_inj.mp
      simp [heq, Batch.beg]
    rw [Batch.matchBegin, htext, Str.stripPrefix_append, Option.bind_some,
      Str.rsplitOnceChar_append _ _ (by decide), Option.bind_some]
    rfl
  | inr h =>
    by_cases hmark : (b.beg "").toList <+: part
    · obtain ⟨id, rfl⟩ := hmark
      rw [b.beg_toList a.id, List.prefix_append_right_inj] at h
      have htext : String.ofList ((b.beg "").toList ++ id) =
          ("__SFW_" ++ (b.nonce ++ "_B_")) ++ String.ofList id := by
        apply String.toList_inj.mp
        simp [Batch.beg]
      have hnone : ' ' ∉ (String.ofList id).toList := by
        rw [String.toList_ofList]
        exact fun hmem => hspace (h.subset hmem)
      rw [Batch.matchBegin, htext, Str.stripPrefix_append, Option.bind_some,
        Str.rsplitOnceChar_eq_none hnone, Option.bind_none]
    · exact matchBegin_eq_none hmark

theorem le_ofDigitChars (l : List Char) (acc : Nat) : acc ≤ Nat.ofDigitChars 10 l acc := by
  induction l generalizing acc with
  | nil => simp
  | cons c l ih =>
    rw [Nat.ofDigitChars_cons]
    have hstep := ih (10 * acc + (c.toNat - '0'.toNat))
    omega

/-- A cut in the status leaves a begin marker, with another status perhaps. -/
theorem matchBegin_of_opened {part : List Char} (hrc : a.rc < 2147483648)
    (hpart : part <+: a.header b) (hopen : a.opened b <+: part) :
    ∃ rc, b.matchBegin (String.ofList part) = some (a.id, rc) := by
  obtain ⟨more, rfl⟩ := hopen
  rw [Answer.opened, Answer.header, List.append_assoc, List.prefix_append_right_inj,
    List.cons_append, List.cons_prefix_cons] at hpart
  obtain ⟨rest, hrest⟩ := hpart.2
  generalize hds : (toString a.rc).toList.take 1 ++ more = ds at hrest
  have hne : ds ≠ [] := by
    obtain ⟨d, l, hl⟩ := List.exists_cons_of_ne_nil (Str.toString_toList_ne_nil a.rc)
    rw [← hds, hl]
    exact List.cons_ne_nil d more
  have hdigit : ∀ c ∈ ds, c.isDigit = true := by
    intro c hc
    exact Str.isDigit_of_mem_toString (hrest ▸ List.mem_append_left rest hc)
  have hbound : Nat.ofDigitChars 10 ds 0 < 2147483648 := by
    have hwhole := Str.digitsValue_toString a.rc
    rw [Str.digitsValue_eq 0 fun c => Str.isDigit_of_mem_toString, ← hrest,
      Nat.ofDigitChars_append, Option.some_inj] at hwhole
    have hle := le_ofDigitChars rest (Nat.ofDigitChars 10 ds 0)
    omega
  have htext : String.ofList (a.opened b ++ more) = b.beg a.id ++ (" " ++ String.ofList ds) := by
    apply String.toList_inj.mp
    simp [Answer.opened, ← hds]
  exact ⟨_, htext ▸ matchBegin_digits b a.id hne hdigit (Str.digitsValue_eq 0 hdigit) hbound⟩

end Lines

section Read
variable {b : Batch} {a : Answer} {l : List Answer} {m : List (String × Section)} {u : List Char}

/-- The reader after the lines of a text, with some answers read before. -/
def Batch.read (b : Batch) (m : List (String × Section)) (u : List Char) : AnswerReader :=
  ((Str.linesChars u).map String.ofList).foldl (AnswerReader.pushLine b) ⟨m, none, []⟩

/-- A line that neither begins an answer nor ends the one for `id`. -/
def KeepsOpen (b : Batch) (id line : String) : Prop := b.matchBegin line = none ∧ b.matchEnd line ≠ some id

attribute [local simp] AnswerReader.flush AnswerReader.pushLine

theorem pushLine_noMarker {line : String} (h : NoMarker b line) :
    AnswerReader.pushLine b ⟨m, none, []⟩ line = ⟨m, none, []⟩ := by
  simp [AnswerReader.pushLine, h.1, h.2]

theorem pushLine_body {line : String} {c : String × Int} {body : List String}
    (h : NoMarker b line) :
    AnswerReader.pushLine b ⟨m, some c, body⟩ line = ⟨m, some c, body ++ [line]⟩ := by
  simp [AnswerReader.pushLine, h.1, h.2]

theorem pushLine_keepsOpen {id line : String} {rc : Int} {body : List String} (h : KeepsOpen b id line) :
    ∃ body', AnswerReader.pushLine b ⟨m, some (id, rc), body⟩ line = ⟨m, some (id, rc), body'⟩ := by
  cases hend : b.matchEnd line with
  | none => exact ⟨_, pushLine_body ⟨h.1, hend⟩⟩
  | some id' =>
    have hne : id ≠ id' := fun he => h.2 (he ▸ hend)
    exact ⟨body, by simp [AnswerReader.pushLine, h.1, hend, hne]⟩

theorem pushLine_begin {line : String} {c : String × Int} (h : b.matchBegin line = some c) :
    AnswerReader.pushLine b ⟨m, none, []⟩ line = ⟨m, some c, []⟩ := by
  simp [AnswerReader.pushLine, h, AnswerReader.flush]

theorem pushLine_end (id : String) (rc : Int) (body : List String)
    (hbegin : b.matchBegin (b.fin id) = none) :
    AnswerReader.pushLine b ⟨m, some (id, rc), body⟩ (b.fin id) =
      ⟨Assoc.overwrite m (id, ⟨rc, Str.join "\n" body⟩), none, []⟩ := by
  simp [AnswerReader.pushLine, hbegin, matchEnd_fin, AnswerReader.flush]

theorem foldl_body {lines : List String} {c : String × Int} {body : List String}
    (h : ∀ line ∈ lines, NoMarker b line) :
    lines.foldl (AnswerReader.pushLine b) ⟨m, some c, body⟩ = ⟨m, some c, body ++ lines⟩ := by
  induction lines generalizing body with
  | nil => simp
  | cons line lines ih =>
    obtain ⟨hline, hlines⟩ := List.forall_mem_cons.mp h
    rw [List.foldl_cons, pushLine_body hline, ih hlines]
    simp

/-- What one answer has to meet. -/
structure GoodAnswer (b : Batch) (a : Answer) : Prop where
  word : ∀ c ∈ a.id.toList, Str.isWhitespace c = false
  status : a.rc < 2147483648
  unmarked : ∀ line ∈ a.bodyLines, ¬ (b.beg "").toList <+: line ∧ ¬ (b.fin "").toList <+: line

theorem WellFormed.good (h : WellFormed b l) (ha : a ∈ l) : GoodAnswer b a :=
  ⟨h.words a ha, h.status a ha, h.unmarked a ha⟩

/-- The answer as the reader stores it. -/
def Answer.received (a : Answer) : Section :=
  ⟨a.rc, Str.join "\n" ((a.bodyLines.map Str.dropCr).map String.ofList)⟩

namespace GoodAnswer

theorem mark_chars (b : Batch) : ∀ c ∈ (b.beg "").toList ++ (b.fin "").toList,
    Str.isWhitespace c = false := by
  have hnonce : ∀ c ∈ b.nonce.toList, Str.isWhitespace c = false := by
    intro c hc
    have hhex := b.nonce_hex c hc
    apply isWhitespace_of_varChar
    simp only [isAsciiHexdigit, isAsciiAlphanumeric, isAsciiAlphabetic, Bool.or_eq_true,
      Bool.and_eq_true, decide_eq_true_eq] at hhex ⊢
    have hf : 'f' ≤ 'z' := by decide
    have hF : 'F' ≤ 'Z' := by decide
    rcases hhex with (hdigit | hlow) | hup
    · exact .inl (.inr hdigit)
    · exact .inl (.inl (.inl ⟨hlow.1, Char.le_trans hlow.2 hf⟩))
    · exact .inl (.inl (.inr ⟨hup.1, Char.le_trans hup.2 hF⟩))
  intro c hc
  simp only [Batch.beg, Batch.fin, String.toList_append, List.mem_append] at hc
  have hall : ∀ s ∈ ["__SFW_", "_B_", "_E_", ""], ∀ c ∈ s.toList, Str.isWhitespace c = false := by
    simp [Str.isWhitespace]
  rcases hc with (hc | hc | hc | hc) | (hc | hc | hc | hc)
  · exact hall _ (by decide) c hc
  · exact hnonce c hc
  · exact hall _ (by decide) c hc
  · exact hall _ (by decide) c hc
  · exact hall _ (by decide) c hc
  · exact hnonce c hc
  · exact hall _ (by decide) c hc
  · exact hall _ (by decide) c hc

theorem fin_chars (h : GoodAnswer b a) : ∀ c ∈ (b.fin a.id).toList, Str.isWhitespace c = false := by
  intro c hc
  rw [b.fin_toList a.id, List.mem_append] at hc
  cases hc with
  | inl hc => exact mark_chars b c (List.mem_append_right _ hc)
  | inr hc => exact h.word c hc

theorem header_chars (h : GoodAnswer b a) : ∀ c ∈ a.header b, Str.isWhitespace c = false ∨ c = ' ' := by
  intro c hc
  rw [Answer.header, b.beg_toList a.id, List.mem_append, List.mem_append, List.mem_cons] at hc
  rcases hc with (hc | hc) | hc | hc
  · exact .inl (mark_chars b c (List.mem_append_left _ hc))
  · exact .inl (h.word c hc)
  · exact .inr hc
  · exact .inl (isWhitespace_of_mem_toString hc)

theorem notMem_header (h : GoodAnswer b a) {c : Char} (hc : Str.isWhitespace c = true) (hne : c ≠ ' ') :
    c ∉ a.header b := by
  intro hmem
  cases h.header_chars c hmem with
  | inl hfalse =>
    rw [hc] at hfalse
    cases hfalse
  | inr heq => exact hne heq

theorem notMem_fin (h : GoodAnswer b a) {c : Char} (hc : Str.isWhitespace c = true) :
    c ∉ (b.fin a.id).toList := by
  intro hmem
  rw [h.fin_chars c hmem] at hc
  cases hc

theorem newline_notMem (h : GoodAnswer b a) : ∀ line ∈ a.lines b, '\n' ∉ line := by
  intro line hline
  rw [Answer.lines, List.mem_cons, List.mem_append, List.mem_singleton] at hline
  rcases hline with rfl | hbody | rfl
  · exact h.notMem_header rfl (by decide)
  · exact Str.notMem_of_mem_splitCharFrom hbody
  · exact h.notMem_fin rfl

theorem dropCr_of_notMem {line : List Char} (h : '\r' ∉ line) : Str.dropCr line = line := by
  rw [Str.dropCr, if_neg]
  exact fun hlast => h (List.mem_of_getLast? hlast)

theorem bodyLine (h : GoodAnswer b a) {line part : List Char} (hline : line ∈ a.bodyLines)
    (hpart : part <+: line) : NoMarker b (String.ofList part) :=
  ⟨matchBegin_eq_none fun hbegin => (h.unmarked line hline).1 (hbegin.trans hpart),
    matchEnd_eq_none fun hend => (h.unmarked line hline).2 (hend.trans hpart)⟩

theorem fin_noBegin (b : Batch) (id : List Char) {part : List Char} (hpart : part <+: (b.fin "").toList ++ id) :
    b.matchBegin (String.ofList part) = none :=
  matchBegin_eq_none fun hbegin =>
    beg_fin_disjoint (hbegin.trans hpart) (List.prefix_append _ id)

/-- A cut in the end marker leaves none for this answer. -/
theorem finPart (b : Batch) {id : String} {part : List Char} (hpart : part <+: (b.fin id).toList)
    (hne : part ≠ (b.fin id).toList) : KeepsOpen b id (String.ofList part) := by
  rw [b.fin_toList id] at hpart hne
  refine ⟨fin_noBegin b _ hpart, fun hend => ?_⟩
  by_cases hmark : (b.fin "").toList <+: part
  · obtain ⟨id', rfl⟩ := hmark
    have htext : String.ofList ((b.fin "").toList ++ id') = b.fin (String.ofList id') := by
      apply String.toList_inj.mp
      rw [b.fin_toList (String.ofList id')]
      simp
    rw [htext, matchEnd_fin, Option.some_inj] at hend
    rw [← hend, String.toList_ofList] at hne
    exact hne rfl
  · rw [matchEnd_eq_none hmark] at hend
    cases hend

/-- The first line, as the reader gets it. -/
theorem header_begin (h : GoodAnswer b a) :
    b.matchBegin (String.ofList (a.header b)) = some (a.id, (a.rc : Int)) := by
  have htext : String.ofList (a.header b) = b.beg a.id ++ (" " ++ toString a.rc) := by
    apply String.toList_inj.mp
    simp [Answer.header]
  rw [htext, matchBegin_beg b a.id h.status]

/-- All lines of an answer, whether its last newline is there or not. -/
theorem foldl_lines (h : GoodAnswer b a) :
    (((a.lines b).map Str.dropCr).map String.ofList).foldl (AnswerReader.pushLine b) ⟨m, none, []⟩ =
      ⟨Assoc.overwrite m (a.id, a.received), none, []⟩ := by
  have hfin : b.matchBegin (b.fin a.id) = none := by
    have hnone := fin_noBegin b a.id.toList List.prefix_rfl
    rwa [← b.fin_toList a.id, String.ofList_toList] at hnone
  have hbody : ∀ line ∈ (a.bodyLines.map Str.dropCr).map String.ofList, NoMarker b line := by
    intro line hline
    rw [List.map_map] at hline
    obtain ⟨body, hmem, rfl⟩ := List.mem_map.mp hline
    exact h.bodyLine hmem (Str.dropCr_prefix body)
  have hcrHeader : Str.dropCr (a.header b) = a.header b :=
    dropCr_of_notMem (h.notMem_header rfl (by decide))
  have hcrFin : Str.dropCr (b.fin a.id).toList = (b.fin a.id).toList :=
    dropCr_of_notMem (h.notMem_fin rfl)
  rw [Answer.lines, List.map_cons, List.map_cons, List.foldl_cons, hcrHeader,
    pushLine_begin h.header_begin, List.map_append, List.map_append, List.foldl_append,
    foldl_body hbody, List.map_singleton, List.map_singleton, hcrFin, String.ofList_toList,
    List.foldl_cons, List.foldl_nil, pushLine_end a.id a.rc _ hfin, List.nil_append]
  rfl

theorem read_text (h : GoodAnswer b a) (u : List Char) :
    b.read m ((a.text b).toList ++ u) = b.read (Assoc.overwrite m (a.id, a.received)) u := by
  rw [Batch.read, Answer.text_eq_unlines, unlines, Str.linesChars_unlines h.newline_notMem,
    List.map_append, List.foldl_append, h.foldl_lines, Batch.read]

theorem framed_eq (b : Batch) (a : Answer) :
    a.framed b = unlines (a.header b :: a.bodyLines) ++ (b.fin a.id).toList := by
  have hbody : unlines a.bodyLines = a.body.toList ++ ['\n'] :=
    Str.unlines_splitCharFrom '\n' [] a.body.toList
  have hcons : unlines (a.header b :: a.bodyLines) = a.header b ++ ['\n'] ++ unlines a.bodyLines := rfl
  rw [hcons, hbody, Answer.framed]
  simp

theorem read_framed (h : GoodAnswer b a) :
    b.read m (a.framed b) = ⟨Assoc.overwrite m (a.id, a.received), none, []⟩ := by
  have hlines : ∀ line ∈ a.header b :: a.bodyLines, '\n' ∉ line := by
    intro line hline
    refine h.newline_notMem line ?_
    rw [Answer.lines, ← List.cons_append]
    exact List.mem_append_left _ hline
  have hne : (b.fin a.id).toList ≠ [] := by simp [Batch.fin]
  have hlast := dropCr_of_notMem (h.notMem_fin rfl)
  rw [← h.foldl_lines, Batch.read, framed_eq, unlines, Str.linesChars_unlines hlines,
    Str.linesChars_open (h.notMem_fin rfl), if_neg hne, Answer.lines, ← List.cons_append]
  simp only [List.map_append, List.map_singleton, hlast]

/-- A cut in the first line. -/
theorem read_header (h : GoodAnswer b a) {part : List Char} (hpart : part <+: a.header b) :
    ¬ a.opened b <+: part ∧ b.read m part = ⟨m, none, []⟩ ∨
      a.opened b <+: part ∧ ∃ rc body, b.read m part = ⟨m, some (a.id, rc), body⟩ := by
  have hnewline : '\n' ∉ part := fun hmem =>
    h.notMem_header rfl (by decide) (hpart.subset hmem)
  by_cases hopen : a.opened b <+: part
  · have hne : part ≠ [] := by
      rintro rfl
      exact absurd (List.prefix_nil.mp hopen) (by simp [Answer.opened])
    obtain ⟨rc, hrc⟩ := matchBegin_of_opened h.status hpart hopen
    refine .inr ⟨hopen, rc, [], ?_⟩
    rw [Batch.read, Str.linesChars_open hnewline, if_neg hne]
    exact pushLine_begin hrc
  · refine .inl ⟨hopen, ?_⟩
    rw [Batch.read, Str.linesChars_open hnewline]
    split
    · rfl
    · exact pushLine_noMarker (noMarker_of_header h.word hpart hopen)

/-- Behind the first line, a cut leaves lines of the body and a part that does not end the
answer. -/
theorem cut_lines (h : GoodAnswer b a) {done rest : List (List Char)} {part : List Char}
    (hlines : done ++ rest = a.bodyLines ++ [(b.fin a.id).toList])
    (hu : unlines (a.header b :: done) ++ part <+: a.framed b)
    (hne : unlines (a.header b :: done) ++ part ≠ a.framed b)
    (hpart : part = [] ∨ ∃ line after, rest = line :: after ∧ part <+: line) :
    done <+: a.bodyLines ∧
      (part = [] ∨ '\n' ∉ part ∧ KeepsOpen b a.id (String.ofList part)) := by
  have hfin : (b.fin a.id).toList ∉ a.bodyLines := by
    intro hmem
    refine (h.unmarked _ hmem).2 ?_
    rw [b.fin_toList a.id]
    exact List.prefix_append _ _
  have hdone : done <+: a.bodyLines := by
    cases List.prefix_concat_iff.mp ⟨rest, hlines⟩ with
    | inl hall =>
      exfalso
      have hlen := hu.length_le
      rw [hall, framed_eq] at hlen
      simp only [unlines, List.flatMap_cons, List.flatMap_append, List.length_append,
        List.flatMap_nil, List.length_singleton, List.append_nil] at hlen
      omega
    | inr hdone => exact hdone
  refine ⟨hdone, ?_⟩
  rcases hpart with rfl | ⟨line, after, rfl, hpart⟩
  · exact .inl rfl
  · refine .inr ?_
    have hmem : line ∈ a.bodyLines ++ [(b.fin a.id).toList] := by
      rw [← hlines]
      exact List.mem_append_right _ List.mem_cons_self
    cases List.mem_append.mp hmem with
    | inl hbody =>
      obtain ⟨hbegin, hend⟩ := h.bodyLine hbody hpart
      refine ⟨fun hc => Str.notMem_of_mem_splitCharFrom hbody (hpart.subset hc), hbegin, ?_⟩
      rw [hend]
      exact nofun
    | inr hline =>
      rw [List.mem_singleton] at hline
      subst hline
      refine ⟨fun hc => h.notMem_fin rfl (hpart.subset hc), finPart b hpart ?_⟩
      rintro rfl
      refine hne ?_
      cases List.eq_nil_or_concat after with
      | inl hnil =>
        rw [hnil] at hlines
        rw [framed_eq, (List.append_inj' hlines rfl).1]
      | inr hconcat =>
        exfalso
        obtain ⟨mid, last, rfl⟩ := hconcat
        have hsplit : (done ++ (b.fin a.id).toList :: mid) ++ [last] =
            a.bodyLines ++ [(b.fin a.id).toList] := by rw [← hlines]; simp
        refine hfin ?_
        rw [← (List.append_inj' hsplit rfl).1]
        simp

/-- A cut in front of the end of the end marker: from the first digit of the status on, the answer
is open. -/
theorem read_cut (h : GoodAnswer b a) (hu : u <+: a.framed b) (hne : u ≠ a.framed b) :
    ¬ a.opened b <+: u ∧ b.read m u = ⟨m, none, []⟩ ∨
      a.opened b <+: u ∧ ∃ rc body, b.read m u = ⟨m, some (a.id, rc), body⟩ := by
  have htext : u <+: unlines (a.lines b) := by
    rw [← Answer.text_eq_unlines, Answer.text_toList]
    exact hu.trans (List.prefix_append _ _)
  obtain ⟨done, rest, part, hlines, rfl, hpart⟩ := Str.prefix_unlines htext
  rw [Answer.lines] at hlines
  cases done with
  | nil =>
    have hheader : part <+: a.header b := by
      rcases hpart with rfl | ⟨line, after, hrest, hpart⟩
      · exact List.nil_prefix
      · rw [List.nil_append, hrest] at hlines
        exact (List.cons.inj hlines).1 ▸ hpart
    exact h.read_header hheader
  | cons head done =>
    obtain ⟨rfl, hrest⟩ : a.header b = head ∧ a.bodyLines ++ [(b.fin a.id).toList] = done ++ rest :=
      List.cons.inj hlines
    have hcons : unlines (a.header b :: done) ++ part = a.header b ++ (['\n'] ++ unlines done ++ part) := by
      simp [unlines]
    have hopen : a.opened b <+: unlines (a.header b :: done) ++ part := by
      rw [hcons]
      refine List.IsPrefix.trans ?_ (List.prefix_append (a.header b) _)
      rw [Answer.opened, Answer.header]
      exact (List.prefix_append_right_inj _).mpr
        (List.cons_prefix_cons.mpr ⟨rfl, List.take_prefix 1 _⟩)
    obtain ⟨hdone, hlast⟩ := h.cut_lines hrest.symm hu hne hpart
    have hnewline : ∀ line ∈ a.header b :: done, '\n' ∉ line := by
      intro line hline
      refine h.newline_notMem line ?_
      rw [Answer.lines, hrest, ← List.cons_append]
      exact List.mem_append_left _ hline
    have hbody : ∀ line ∈ (done.map Str.dropCr).map String.ofList, NoMarker b line := by
      intro line hline
      rw [List.map_map] at hline
      obtain ⟨body, hmem, rfl⟩ := List.mem_map.mp hline
      exact h.bodyLine (hdone.subset hmem) (Str.dropCr_prefix body)
    have hcr := dropCr_of_notMem (h.notMem_header (c := '\r') rfl (by decide))
    refine .inr ⟨hopen, ?_⟩
    rw [Batch.read, Str.linesChars_unlines hnewline, List.map_append, List.foldl_append,
      List.map_cons, List.map_cons, List.foldl_cons, hcr, pushLine_begin h.header_begin,
      foldl_body hbody]
    rcases hlast with rfl | ⟨hopenPart, hkeeps⟩
    · exact ⟨_, _, rfl⟩
    · rw [Str.linesChars_open hopenPart]
      split
      · exact ⟨_, _, rfl⟩
      · exact ⟨_, pushLine_keepsOpen hkeeps⟩

end GoodAnswer

/-- The answer as an entry of the map. -/
def Answer.stored (a : Answer) : String × Section := (a.id, a.received)

def stored (l : List Answer) (m : List (String × Section)) : List (String × Section) :=
  (l.map Answer.stored).foldl Assoc.overwrite m

/-- Where an answer stands in a response, up to the point `f` of it. -/
def Batch.Shown (b : Batch) (f : Answer → List Char) (pre : List Answer) (a : Answer)
    (u : List Char) : Prop :=
  b.response pre ++ f a <+: u

theorem shown_cons (a c : Answer) (f : Answer → List Char) (pre : List Answer) :
    b.Shown f (c :: pre) a ((c.text b).toList ++ u) ↔ b.Shown f pre a u := by
  rw [Batch.Shown, Batch.response, List.flatMap_cons, List.append_assoc,
    List.prefix_append_right_inj]
  rfl

/-- A text that ends in front of the last newline of the first answer shows nothing behind it. -/
theorem not_shown_cons {c : Answer} {f : Answer → List Char} {pre : List Answer}
    (hu : u <+: c.framed b) : ¬ b.Shown f (c :: pre) a u := by
  intro h
  have hlen := (h.trans hu).length_le
  simp only [Batch.response, List.flatMap_cons, Answer.text_toList, List.length_append,
    List.length_singleton] at hlen
  omega

/-- What the reader holds after a part of a response: the answers whose end marker it has seen, and
perhaps one whose first line it has seen. -/
structure ReadsAnswers (b : Batch) (m : List (String × Section)) (l done rest : List Answer)
    (u : List Char) : Prop where
  split : l = done ++ rest
  closed : ∀ pre a post, l = pre ++ a :: post →
    (b.Shown (Answer.framed b) pre a u ↔ pre.length < done.length)
  reader : b.read m u = ⟨stored done m, none, []⟩ ∧
      (∀ pre a post, l = pre ++ a :: post → b.Shown (Answer.opened b) pre a u →
        pre.length < done.length) ∨
    ∃ a after rc body, rest = a :: after ∧ b.Shown (Answer.opened b) done a u ∧
      b.read m u = ⟨stored done m, some (a.id, rc), body⟩

theorem opened_prefix_framed (b : Batch) (a : Answer) : a.opened b <+: a.framed b := by
  refine List.IsPrefix.trans ?_ (List.prefix_append (a.header b) _)
  rw [Answer.opened, Answer.header]
  exact (List.prefix_append_right_inj _).mpr (List.cons_prefix_cons.mpr ⟨rfl, List.take_prefix 1 _⟩)

/-- The first answer is complete. -/
theorem ReadsAnswers.cons {done rest : List Answer} (ha : GoodAnswer b a)
    (h : ReadsAnswers b (Assoc.overwrite m (a.id, a.received)) l done rest u) :
    ReadsAnswers b m (a :: l) (a :: done) rest ((a.text b).toList ++ u) where
  split := by rw [h.split, List.cons_append]
  closed := by
    intro pre c post hl
    cases pre with
    | nil =>
      obtain ⟨rfl, -⟩ := List.cons.inj hl
      refine iff_of_true ?_ (Nat.zero_lt_succ _)
      rw [Answer.text_toList, List.append_assoc]
      exact List.prefix_append _ _
    | cons c' pre =>
      obtain ⟨rfl, hpost⟩ := List.cons.inj hl
      rw [shown_cons, h.closed pre c post hpost, List.length_cons, List.length_cons]
      exact Nat.succ_lt_succ_iff.symm
  reader := by
    rw [ha.read_text]
    cases h.reader with
    | inl hnone =>
      refine .inl ⟨hnone.1, fun pre c post hl hopen => ?_⟩
      cases pre with
      | nil => exact Nat.zero_lt_succ _
      | cons c' pre =>
        obtain ⟨rfl, hpost⟩ := List.cons.inj hl
        exact Nat.succ_lt_succ (hnone.2 pre c post hpost ((shown_cons c a _ pre).mp hopen))
    | inr hsome =>
      obtain ⟨c, after, rc, body, hrest, hopen, hread⟩ := hsome
      exact .inr ⟨c, after, rc, body, hrest, (shown_cons c a _ done).mpr hopen, hread⟩

/-- The text ends right behind the first end marker. -/
theorem ReadsAnswers.framed (ha : GoodAnswer b a) : ReadsAnswers b m (a :: l) [a] l (a.framed b) where
  split := rfl
  closed := by
    intro pre c post hl
    cases pre with
    | nil =>
      obtain ⟨rfl, -⟩ := List.cons.inj hl
      exact iff_of_true List.prefix_rfl Nat.zero_lt_one
    | cons c' pre =>
      obtain ⟨rfl, -⟩ := List.cons.inj hl
      exact iff_of_false (not_shown_cons List.prefix_rfl) (by simp)
  reader := by
    refine .inl ⟨ha.read_framed, fun pre c post hl hopen => ?_⟩
    cases pre with
    | nil => exact Nat.zero_lt_one
    | cons c' pre =>
      obtain ⟨rfl, -⟩ := List.cons.inj hl
      exact absurd hopen (not_shown_cons List.prefix_rfl)

/-- The text ends in front of the first end marker. -/
theorem ReadsAnswers.cut (ha : GoodAnswer b a) (hu : u <+: a.framed b) (hne : u ≠ a.framed b) :
    ReadsAnswers b m (a :: l) [] (a :: l) u where
  split := rfl
  closed := by
    intro pre c post hl
    refine iff_of_false (fun hshown => ?_) (Nat.not_lt_zero _)
    cases pre with
    | nil =>
      obtain ⟨rfl, -⟩ := List.cons.inj hl
      exact hne (hu.eq_of_length (Nat.le_antisymm hu.length_le hshown.length_le))
    | cons c' pre =>
      obtain ⟨rfl, -⟩ := List.cons.inj hl
      exact not_shown_cons hu hshown
  reader := by
    cases ha.read_cut (m := m) hu hne with
    | inl hclosed =>
      refine .inl ⟨hclosed.2, fun pre c post hl hopen => ?_⟩
      cases pre with
      | nil =>
        obtain ⟨rfl, -⟩ := List.cons.inj hl
        exact absurd hopen hclosed.1
      | cons c' pre =>
        obtain ⟨rfl, -⟩ := List.cons.inj hl
        exact absurd hopen (not_shown_cons hu)
    | inr hopen =>
      obtain ⟨hopen, rc, body, hread⟩ := hopen
      exact .inr ⟨a, l, rc, body, rfl, hopen, hread⟩

theorem readsAnswers (hl : ∀ a ∈ l, GoodAnswer b a) (hu : u <+: b.response l) :
    ∃ done rest, ReadsAnswers b m l done rest u := by
  induction l generalizing m u with
  | nil =>
    obtain rfl : u = [] := List.prefix_nil.mp hu
    exact ⟨[], [], rfl, by simp, .inl ⟨rfl, by simp⟩⟩
  | cons a l ih =>
    obtain ⟨ha, hl⟩ := List.forall_mem_cons.mp hl
    rw [Batch.response, List.flatMap_cons] at hu
    by_cases htext : (a.text b).toList <+: u
    · obtain ⟨u', rfl⟩ := htext
      obtain ⟨done, rest, h⟩ := ih hl ((List.prefix_append_right_inj _).mp hu)
      exact ⟨a :: done, rest, h.cons ha⟩
    · have hpart : u <+: a.framed b := by
        cases List.prefix_or_prefix_of_prefix hu (List.prefix_append _ _) with
        | inr h => exact absurd h htext
        | inl h =>
          rw [Answer.text_toList] at h
          cases List.prefix_concat_iff.mp h with
          | inl heq =>
            rw [Answer.text_toList, heq] at htext
            exact absurd List.prefix_rfl htext
          | inr h => exact h
      by_cases hwhole : u = a.framed b
      · exact ⟨[a], l, hwhole ▸ .framed ha⟩
      · exact ⟨[], a :: l, .cut ha hpart hwhole⟩

end Read

section Cut
variable {b : Batch} {a : Answer} {l : List Answer} {p : List UInt8}

/-- The map says of a cut response only what it holds: each entry is the answer of a query whose end
marker is in front of the cut, with its status and body. -/
def Batch.NothingFabricated (b : Batch) (l : List Answer) (p : List UInt8) : Prop :=
  ∀ id sec, (b.answers p).lookup id = some sec →
    ∃ pre a post, l = pre ++ a :: post ∧ a.id = id ∧
      encode (b.response pre ++ a.framed b) <+: p ∧ sec = ⟨a.rc, a.body⟩

theorem lookup_stored (hids : (l.map Answer.id).Nodup) {id : String} {sec : Section} :
    (stored l []).lookup id = some sec ↔ ∃ a ∈ l, a.id = id ∧ sec = a.received := by
  have hkeys : Assoc.keys (l.map Answer.stored) = l.map Answer.id := by
    rw [Assoc.keys, List.map_map]
    rfl
  rw [stored, Assoc.lookup_foldl_overwrite, List.lookup_nil, Option.or_none]
  constructor
  · intro h
    obtain ⟨a, ha, heq⟩ := List.mem_map.mp (Assoc.mem_of_last? h)
    obtain ⟨rfl, rfl⟩ := Prod.mk.inj heq
    exact ⟨a, ha, rfl, rfl⟩
  · rintro ⟨a, ha, rfl, rfl⟩
    exact Assoc.last?_of_mem (hkeys ▸ hids) (List.mem_map_of_mem ha)

theorem mem_of_split {done rest pre post : List Answer} (h : done ++ rest = pre ++ a :: post)
    (hlt : pre.length < done.length) : a ∈ done := by
  have hat : (done ++ rest)[pre.length]? = some a := by simp [h]
  rw [List.getElem?_append_left hlt] at hat
  exact List.mem_of_getElem? hat

/-- An id stands at one place only. -/
theorem split_unique {pre pre' post post' : List Answer} {a' : Answer}
    (hids : (l.map Answer.id).Nodup) (h : l = pre ++ a :: post) (h' : l = pre' ++ a' :: post')
    (hid : a.id = a'.id) : pre.length = pre'.length := by
  have hat : (l.map Answer.id)[pre.length]? = some a.id := by simp [h]
  have hat' : (l.map Answer.id)[pre'.length]? = some a.id := by simp [h', hid]
  have hlt : pre.length < (l.map Answer.id).length := by simp [h]
  exact (List.getElem?_inj hlt hids).mp (hat.trans hat'.symm)

/-- Cutting bytes or characters: the same answers are complete, and the same are begun. -/
theorem exists_cut (hp : p <+: encode (b.response l)) :
    ∃ u, u <+: b.response l ∧ b.answers p = (b.read [] u).finish ∧
      ∀ pre a post, l = pre ++ a :: post →
        (encode (b.response pre ++ a.framed b) <+: p ↔ b.Shown (Answer.framed b) pre a u) ∧
        (encode (b.response pre ++ a.opened b) <+: p ↔ b.Shown (Answer.opened b) pre a u) := by
  obtain ⟨u, hu, hlines, hcut⟩ := BufRead.lines_of_prefix hp
  refine ⟨u, hu, by rw [Batch.answers, hlines]; rfl, fun pre a post hl => ⟨?_, ?_⟩⟩
  · refine hcut _ [] (b.response post) ?_ nofun
    rw [hl]
    simp [Batch.response, Answer.text_toList]
  · have hdigits : a.header b = a.opened b ++ (toString a.rc).toList.drop 1 := by
      rw [Answer.opened, Answer.header, List.append_assoc, List.cons_append, List.take_append_drop]
    refine hcut _ ((toString a.rc).toList.drop 1)
      (a.body.toList ++ '\n' :: (b.fin a.id).toList ++ '\n' :: b.response post) ?_ ?_
    · rw [hl]
      simp [Batch.response, Answer.text_toList, Answer.framed, hdigits]
    · intro c hc
      have hdigit : Str.isAsciiDigit c = true :=
        Str.isDigit_of_mem_toString (List.mem_of_mem_drop hc)
      have hval : c.val ≤ '9'.val := by
        simp only [Str.isAsciiDigit, Bool.and_eq_true, decide_eq_true_eq] at hdigit
        exact hdigit.2
      rw [Char.utf8Size, if_pos]
      exact Nat.le_trans hval (by decide)

/-- Lines that stay what they are without their carriage returns have none. -/
theorem unlines_dropCr {lines : List (List Char)}
    (h : unlines (lines.map Str.dropCr) = unlines lines) :
    ∀ line ∈ lines, line.getLast? ≠ some '\r' := by
  induction lines with
  | nil => simp
  | cons line lines ih =>
    have hcons : Str.dropCr line ++ '\n' :: unlines (lines.map Str.dropCr) =
        line ++ '\n' :: unlines lines := by simpa [unlines] using h
    have hline : line.getLast? ≠ some '\r' := by
      intro hlast
      obtain ⟨front, rfl⟩ := List.getLast?_eq_some_iff.mp hlast
      rw [Str.dropCr, if_pos hlast, List.dropLast_concat, List.append_assoc,
        List.append_cancel_left_eq] at hcons
      exact absurd (List.cons.inj hcons).1 (by decide)
    rw [Str.dropCr, if_neg hline, List.append_cancel_left_eq] at hcons
    exact List.forall_mem_cons.mpr ⟨hline, ih (List.cons.inj hcons).2⟩

theorem join_unlines (lines : List (List Char)) (h : lines ≠ []) :
    (Str.join "\n" (lines.map String.ofList)).toList ++ ['\n'] = unlines lines := by
  rw [Str.join, String.toList_ofList, List.map_map]
  have hid : String.toList ∘ String.ofList = id := by
    funext s
    exact String.toList_ofList
  rw [hid, List.map_id]
  induction lines with
  | nil => exact absurd rfl h
  | cons line lines ih =>
    cases lines with
    | nil => simp [unlines]
    | cons next lines =>
      have hnext := ih (List.cons_ne_nil _ _)
      have hcons : unlines (line :: next :: lines) = line ++ '\n' :: unlines (next :: lines) := by
        simp [unlines]
      rw [hcons, ← hnext]
      simp [List.intercalate]

/-- The body is stored as it is exactly when no line of it ends in a carriage return. -/
theorem received_eq (a : Answer) :
    a.received = ⟨a.rc, a.body⟩ ↔ ∀ line ∈ a.bodyLines, line.getLast? ≠ some '\r' := by
  have hne : a.bodyLines ≠ [] := Str.splitCharFrom_ne_nil _ _ _
  have hbody : unlines a.bodyLines = a.body.toList ++ ['\n'] :=
    Str.unlines_splitCharFrom '\n' [] a.body.toList
  have hjoin := join_unlines (a.bodyLines.map Str.dropCr) (by simpa using hne)
  constructor
  · intro h
    apply unlines_dropCr
    rw [← hjoin, hbody, (Section.mk.inj h).2]
  · intro h
    have hsame : a.bodyLines.map Str.dropCr = a.bodyLines := by
      rw [List.map_congr_left (g := id) fun line hline => by rw [Str.dropCr, if_neg (h line hline), id],
        List.map_id]
    rw [hsame, hbody] at hjoin
    have hstr : Str.join "\n" (a.bodyLines.map String.ofList) = a.body :=
      String.toList_inj.mp (List.append_cancel_right hjoin)
    rw [Answer.received, hsame, hstr]

/-- A cut response is read as what it holds exactly when no section is cut between its first status
digit and the end of its end marker, and no line of a body ends in a carriage return. -/
theorem answers_exact_iff (hl : WellFormed b l) (hp : p <+: encode (b.response l)) :
    b.NothingFabricated l p ↔ ∀ pre a post, l = pre ++ a :: post →
      encode (b.response pre ++ a.opened b) <+: p →
        encode (b.response pre ++ a.framed b) <+: p ∧
          ∀ line ∈ a.bodyLines, line.getLast? ≠ some '\r' := by
  obtain ⟨u, hu, hanswers, hcut⟩ := exists_cut hp
  obtain ⟨done, rest, hread⟩ := readsAnswers (m := []) (fun a ha => hl.good ha) hu
  cases hread.reader with
  | inl hclosed =>
    obtain ⟨hclosed, hopened⟩ := hclosed
    have hids : (done.map Answer.id).Nodup := by
      have hall := hl.ids
      rw [hread.split, List.map_append] at hall
      exact (List.nodup_append.mp hall).1
    have hmap : b.answers p = stored done [] := by
      rw [hanswers, hclosed]
      rfl
    constructor
    · intro h pre a post hsplit hopen
      have hlt := hopened pre a post hsplit (((hcut pre a post hsplit).2).mp hopen)
      have hmem : a ∈ done := mem_of_split (hread.split.symm.trans hsplit) hlt
      refine ⟨((hcut pre a post hsplit).1).mpr ((hread.closed pre a post hsplit).mpr hlt), ?_⟩
      have hsec := (lookup_stored hids).mpr ⟨a, hmem, rfl, rfl⟩
      rw [← hmap] at hsec
      obtain ⟨pre', a', post', hsplit', hid, -, hreceived⟩ := h _ _ hsec
      have hlen := split_unique hl.ids hsplit' hsplit hid
      obtain ⟨-, heq⟩ := List.append_inj (hsplit'.symm.trans hsplit) hlen
      rw [← received_eq, hreceived, (List.cons.inj heq).1]
    · intro h id sec hsec
      rw [hmap, lookup_stored hids] at hsec
      obtain ⟨a, ha, rfl, rfl⟩ := hsec
      obtain ⟨pre, post, rfl⟩ := List.append_of_mem ha
      have hsplit : l = pre ++ a :: (post ++ rest) := by simp [hread.split]
      have hframed := ((hcut pre a _ hsplit).1).mpr ((hread.closed pre a _ hsplit).mpr (by simp))
      have hopen : encode (b.response pre ++ a.opened b) <+: p := by
        refine List.IsPrefix.trans ?_ hframed
        obtain ⟨more, hmore⟩ := opened_prefix_framed b a
        rw [← hmore, ← List.append_assoc, encode_append _ more]
        exact List.prefix_append _ _
      obtain ⟨-, hreturn⟩ := h pre a _ hsplit hopen
      exact ⟨pre, a, _, hsplit, rfl, hframed, (received_eq a).mpr hreturn⟩
  | inr hopen =>
    obtain ⟨a, after, rc, body, rfl, hopen, hstate⟩ := hopen
    have hnot : ¬ encode (b.response done ++ a.framed b) <+: p := by
      rw [(hcut done a after hread.split).1, hread.closed done a after hread.split]
      exact Nat.lt_irrefl _
    refine iff_of_false (fun h => ?_) fun h => ?_
    · have hsec : (b.answers p).lookup a.id = some ⟨rc, Str.join "\n" body⟩ := by
        rw [hanswers, hstate, AnswerReader.finish, AnswerReader.flush, Assoc.lookup_overwrite, if_pos rfl]
      obtain ⟨pre, a', post, hsplit, hid, hframed, -⟩ := h _ _ hsec
      have hlt := (hread.closed pre a' post hsplit).mp (((hcut pre a' post hsplit).1).mp hframed)
      have heq := split_unique hl.ids hsplit hread.split hid
      omega
    · exact hnot (h done a after hread.split (((hcut done a after hread.split).2).mpr hopen)).1

end Cut

def exampleBatch : Batch := .new 4660 86

def exampleAnswers : List Answer := [⟨"unit_state", 0, "active"⟩, ⟨"listeners", 1, "tcp 22\ntcp 80"⟩]

theorem exampleAnswers_wellFormed : WellFormed exampleBatch exampleAnswers where
  ids := by decide
  words := by simp [exampleAnswers, Str.isWhitespace]
  status := by decide
  unmarked := by decide +kernel

theorem answers_exact_whole : exampleBatch.NothingFabricated exampleAnswers
    (encode (exampleBatch.response exampleAnswers)) := by
  refine (answers_exact_iff exampleAnswers_wellFormed List.prefix_rfl).mpr ?_
  intro pre a post hl _
  constructor
  · have htext : exampleBatch.response exampleAnswers =
        (exampleBatch.response pre ++ a.framed exampleBatch) ++ ('\n' :: exampleBatch.response post) := by
      rw [hl]
      simp [Batch.response, Answer.text_toList]
    rw [htext, encode_append _ ('\n' :: _)]
    exact List.prefix_append _ _
  · have hall : ∀ a ∈ exampleAnswers, ∀ line ∈ a.bodyLines, line.getLast? ≠ some '\r' := by
      decide +kernel
    exact hall a (hl ▸ List.mem_append_right pre List.mem_cons_self)

/-- The connection ends inside the first body: the reader reports the unit's state as `act`. -/
theorem answers_keeps_a_cut_section : ¬ ∀ (b : Batch) (l : List Answer) (p : List UInt8),
    WellFormed b l → p <+: encode (b.response l) → b.NothingFabricated l p := by
  intro h
  have hcut : encode "__SFW_123456_B_unit_state 0\nact".toList <+:
      encode (exampleBatch.response exampleAnswers) := by decide +kernel
  have hanswer : (exampleBatch.answers (encode "__SFW_123456_B_unit_state 0\nact".toList)).lookup
      "unit_state" = some ⟨0, "act"⟩ := by decide +kernel
  obtain ⟨pre, a, post, hl, -, -, hsec⟩ := h _ _ _ exampleAnswers_wellFormed hcut _ _ hanswer
  have hnone : ∀ a ∈ exampleAnswers, a.body ≠ "act" := by decide
  exact hnone a (hl ▸ List.mem_append_right pre List.mem_cons_self) (Section.mk.inj hsec).2.symm

end Shellflow
