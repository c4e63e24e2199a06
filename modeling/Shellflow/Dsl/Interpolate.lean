import Mathlib.Data.List.Basic
import Shellflow.Text

/-! References to captured variables in the texts of a step. -/
namespace Shellflow

/-- A reference to a variable that the run has not captured. -/
structure InterpolateError where
  var : String
  template : String
deriving DecidableEq, Repr

section Interpolate
variable (vars : String → Option String) (template : String)

/-- The text of a reference, or the reference itself when its name is no identifier. -/
def referenceText (name literal : List Char) : Except InterpolateError (List Char) :=
  if isValidVarName (String.ofList name) then
    match vars (String.ofList name) with
    | some value => .ok value.toList
    | none => .error ⟨String.ofList name, template⟩
  else .ok literal

def isNameChar (c : Char) : Bool := isAsciiAlphanumeric c || c == '_'

def interpolateFrom : List Char → Except InterpolateError (List Char)
  | [] => .ok []
  | '$' :: '\x7b' :: rest =>
    let name := rest.takeWhile fun c => c != '\x7d'
    if '\x7d' ∈ rest then do
      let value ← referenceText vars template name ('$' :: '\x7b' :: (name ++ ['\x7d']))
      let out ← interpolateFrom (rest.dropWhile fun c => c != '\x7d').tail
      .ok (value ++ out)
    -- no closing brace: the name runs to the end of the text
    else .ok ('$' :: '\x7b' :: name)
  | '$' :: rest => do
    let name := rest.takeWhile isNameChar
    let value ← referenceText vars template name ('$' :: name)
    let out ← interpolateFrom (rest.dropWhile isNameChar)
    .ok (value ++ out)
  | c :: rest => do
    let out ← interpolateFrom rest
    .ok (c :: out)
termination_by s => s.length
decreasing_by
  · have hle := (List.dropWhile_suffix (l := rest) fun c => c != '\x7d').length_le
    simp only [List.length_tail, List.length_cons]
    omega
  · have hle := (List.dropWhile_suffix (l := rest) isNameChar).length_le
    simp only [List.length_cons]
    omega
  · simp

end Interpolate

/-- `$VAR` and `${VAR}` in a text are replaced by what the run has captured. -/
def interpolate (template : String) (vars : String → Option String) :
    Except InterpolateError String :=
  (interpolateFrom vars template template.toList).map String.ofList

theorem interpolateFrom_of_noDollar (vars : String → Option String) (template : String)
    {s : List Char} (h : '$' ∉ s) : interpolateFrom vars template s = .ok s := by
  induction s with
  | nil => rw [interpolateFrom]
  | cons c s ih =>
    obtain ⟨hc, hs⟩ := not_or.mp (mt List.mem_cons.mpr h)
    rw [interpolateFrom, ih hs]
    · rfl
    · rintro rest rfl
      exact absurd rfl hc
    · rintro rfl
      exact absurd rfl hc

theorem interpolate_of_noDollar (vars : String → Option String) {text : String}
    (h : '$' ∉ text.toList) : interpolate text vars = .ok text := by
  rw [interpolate, interpolateFrom_of_noDollar vars text h]
  exact congrArg Except.ok String.ofList_toList

theorem dollar_notMem_of_unit {unit : String} (h : isValidUnitName unit = true) :
    '$' ∉ unit.toList := by
  intro hmem
  rw [isValidUnitName, Bool.and_eq_true, List.all_eq_true] at h
  exact absurd (h.2 _ hmem) (by decide)

/-- The name of a unit that the parser accepts holds no reference. -/
theorem interpolate_unit {unit : String} (h : isValidUnitName unit = true)
    (vars : String → Option String) : interpolate unit vars = .ok unit :=
  interpolate_of_noDollar vars (dollar_notMem_of_unit h)

end Shellflow
