import Shellflow.Lib.BufRead

/-! Lines read one at a time from bytes that need not be text. A line keeps its newline until it is
known to be text, as the reader of an asynchronous stream does it. -/
namespace ByteLines
open Bytes

/-- The bytes up to and with the first newline, and what follows them. -/
def takeLine : List UInt8 → List UInt8 × List UInt8
  | [] => ([], [])
  | b :: bs => if b = 10 then ([b], bs) else (b :: (takeLine bs).1, (takeLine bs).2)

def rawLines : List UInt8 → List (List UInt8)
  | [] => []
  | b :: bs =>
    if b = 10 then [b] :: rawLines bs
    else match rawLines bs with
      | [] => [[b]]
      | line :: rest => (b :: line) :: rest

/-- A text without the newline it ends in, or the carriage return and newline. -/
def dropNewline (text : List Char) : List Char :=
  if text.getLast? = some '\n' then
    if text.dropLast.getLast? = some '\r' then text.dropLast.dropLast else text.dropLast
  else text

def lineText (raw : List UInt8) : Option (List Char) :=
  let r := BufRead.decode raw
  if r.2 then some (dropNewline r.1) else none

/-- The lines in front of the first one that is not text. -/
def readable : List (List UInt8) → List (List Char)
  | [] => []
  | raw :: rest =>
    match lineText raw with
    | none => []
    | some text => text :: readable rest

theorem takeLine_append {u v : List UInt8} (h : 10 ∈ u) :
    takeLine (u ++ v) = ((takeLine u).1, (takeLine u).2 ++ v) := by
  induction u with
  | nil => cases h
  | cons b u ih =>
    by_cases hb : b = 10
    · simp only [List.cons_append, takeLine, if_pos hb]
    · have hu : 10 ∈ u := (List.mem_cons.mp h).resolve_left (Ne.symm hb)
      simp only [List.cons_append, takeLine, if_neg hb, ih hu]

theorem rawLines_eq {bytes : List UInt8} (h : bytes ≠ []) :
    rawLines bytes = (takeLine bytes).1 :: rawLines (takeLine bytes).2 := by
  induction bytes with
  | nil => exact absurd rfl h
  | cons b bs ih =>
    by_cases hb : b = 10
    · simp only [rawLines, takeLine, if_pos hb]
    · cases bs with
      | nil => simp [rawLines, takeLine, hb]
      | cons c cs =>
        have hcs := ih (List.cons_ne_nil c cs)
        rw [rawLines, takeLine, if_neg hb, if_neg hb, hcs]

theorem length_takeLine {bytes : List UInt8} (h : bytes ≠ []) :
    (takeLine bytes).2.length < bytes.length := by
  induction bytes with
  | nil => exact absurd rfl h
  | cons b bs ih =>
    by_cases hb : b = 10
    · simp [takeLine, hb]
    · cases bs with
      | nil => simp [takeLine, hb]
      | cons c cs =>
        have hcs := ih (List.cons_ne_nil c cs)
        rw [takeLine, if_neg hb]
        simp only [List.length_cons] at hcs ⊢
        omega

theorem readable_of_text {raw : List UInt8} {text : List Char} (h : lineText raw = some text)
    (rest : List (List UInt8)) : readable (raw :: rest) = text :: readable rest := by
  rw [readable, h]

theorem readable_of_not_text {raw : List UInt8} (h : lineText raw = none)
    (rest : List (List UInt8)) : readable (raw :: rest) = [] := by
  rw [readable, h]

/-- Nothing is left behind exactly when every line is text. -/
theorem length_readable {lines : List (List UInt8)} :
    (readable lines).length = lines.length ↔ ∀ raw ∈ lines, (lineText raw).isSome := by
  induction lines with
  | nil => simp [readable]
  | cons raw rest ih =>
    cases h : lineText raw with
    | none => simp [readable_of_not_text h, h]
    | some text => simp [readable_of_text h, h, ih]

/-- What stands for a line that is not text does not matter when there is none. -/
theorem readable_of_forall {lines : List (List UInt8)} (replace : List UInt8 → List Char)
    (h : ∀ raw ∈ lines, (lineText raw).isSome) :
    readable lines = lines.map fun raw => (lineText raw).getD (replace raw) := by
  induction lines with
  | nil => rfl
  | cons raw rest ih =>
    rw [List.forall_mem_cons] at h
    obtain ⟨text, htext⟩ := Option.isSome_iff_exists.mp h.1
    simp [readable_of_text htext, htext, ih h.2]

end ByteLines
