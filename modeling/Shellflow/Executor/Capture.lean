import Shellflow.Dsl.Plan
import Shellflow.Executor.Stream
import Shellflow.Lib.BufRead

/-! The capture of `@export` variables: the statements that are appended to a local block, the records
they leave in the capture file, and what is read back from them. -/
namespace Shellflow.Capture
open Bytes
open Piped (Stream)

section Records

inductive CaptureError where
  | missingSeparator
  | notUtf8
  | unexpectedVar (name : String)

def CaptureError.message : CaptureError → Text
  | .missingSeparator => "malformed `@export` capture record: missing `=` separator".toList
  | .notUtf8 => "malformed `@export` capture record: not valid UTF-8".toList
  | .unexpectedVar name =>
    "malformed `@export` capture record: unexpected variable `".toList ++ name.toList ++ "`".toList

def captureSeparator : UInt8 := 0

def equalsSign : UInt8 := 61

def fromUtf8 (bytes : List UInt8) : Option Text :=
  let r := BufRead.decode bytes
  if r.2 then some r.1 else none

/-- A record is split at its first `=`. -/
def parseRecord (allowed : Option (List String)) (record : List UInt8) :
    Except CaptureError (String × Text) :=
  match record.dropWhile (· ≠ equalsSign) with
  | [] => .error .missingSeparator
  | _ :: value =>
    match fromUtf8 (record.takeWhile (· ≠ equalsSign)), fromUtf8 value with
    | some name, some value =>
      let name := String.ofList name
      if name = "" || !isValidVarName name then .error (.unexpectedVar name)
      else if allowed.any fun names => !names.contains name then .error (.unexpectedVar name)
      else .ok (name, value)
    | _, _ => .error .notUtf8

abbrev Table := String → Option Text

/-- The last record of a name wins. -/
def parseRecords (allowed : Option (List String)) (out : Table) :
    List (List UInt8) → Except CaptureError Table
  | [] => .ok out
  | record :: records =>
    if record = [] then parseRecords allowed out records
    else match parseRecord allowed record with
      | .error e => .error e
      | .ok (name, value) => parseRecords allowed (Function.update out name (some value)) records

def parseCaptureRecordsChecked (bytes : List UInt8) (allowed : Option (List String)) :
    Except CaptureError Table :=
  parseRecords allowed (fun _ => none) (bytes.splitOn captureSeparator)

end Records

section Statements

/-- The statement that writes the record of a variable. -/
def captureStatement (name : String) : Text :=
  "printf '%s=%s\\0' \"".toList ++ name.toList ++ "\" \"$\x7b".toList ++ name.toList ++
    "\x7d\" >> \"$SHELLFLOW_CAPTURE\"\n".toList

def appendCapture (script : Text) (exports : List ExportVar) : Text :=
  (if script.getLast? = some '\n' then script else script ++ ['\n']) ++
    exports.flatMap fun var => captureStatement var.name

/-- The shell when it comes to the statements: its variables, and the options that are on. -/
structure Shell where
  vars : String → Option (List UInt8)
  xtrace : Bool
  nounset : Bool

/-- What `${name}` expands to; under `set -u` a variable that is not set ends the shell. -/
def Shell.expand (sh : Shell) (name : String) : Option (List UInt8) :=
  match sh.vars name with
  | some value => some value
  | none => if sh.nounset then none else some []

def unboundMessage (name : String) : Text :=
  "bash: ".toList ++ name.toList ++ ": unbound variable".toList

/-- The words of the statement as the shell runs it. -/
def statementWords (name : String) (value : List UInt8) : List (List UInt8) :=
  [encode "printf".toList, encode "%s=%s\\0".toList, encode name.toList, value]

/-- What `printf` makes of them. -/
def captureRecord (name : String) (value : List UInt8) : List UInt8 :=
  encode name.toList ++ equalsSign :: (value ++ [captureSeparator])

structure Outcome where
  lines : List (Stream × Text)
  written : List UInt8
  passed : Bool

/-- `trace` is how the shell prints the expanded words of a command under `set -x`. -/
def runStatements (trace : List (List UInt8) → Text) (sh : Shell) : List ExportVar → Outcome
  | [] => ⟨[], [], true⟩
  | var :: exports =>
    match sh.expand var.name with
    | none => ⟨[(.stderr, unboundMessage var.name)], [], false⟩
    | some value =>
      let rest := runStatements trace sh exports
      let traced := if sh.xtrace then [(.stderr, trace (statementWords var.name value))] else []
      ⟨traced ++ rest.lines, captureRecord var.name value ++ rest.written, rest.passed⟩

end Statements

section Registered

inductive Masking where
  | global
  | narrow
  | none
deriving DecidableEq

def maskingFor (var : ExportVar) (value : Text) (maskMinLen : Nat) : Masking :=
  if var.isPublic || value.isEmpty then .none
  else if maskMinLen ≤ byteLen value then .global
  else .narrow

/-- The values that are found, to be registered. -/
structure Found where
  masks : List Text
  shorts : List (Text × Text)

def Found.add (found : Found) (var : ExportVar) (value : Text) (maskMinLen : Nat) : Found :=
  match maskingFor var value maskMinLen with
  | .global => if value ∈ found.masks then found else { found with masks := found.masks ++ [value] }
  | .narrow =>
    { found with shorts := found.shorts.filter (·.1 ≠ var.name.toList) ++ [(var.name.toList, value)] }
  | .none => found

def notExported (name : String) : Text :=
  "variable `".toList ++ name.toList ++ "` was not exported by the local step".toList

/-- The variables that join the run state, and the values to be registered when all of them are there. -/
def captureVars (table : Table) (maskMinLen : Nat) :
    Found → List ExportVar → List (String × Text) × Except Text Found
  | found, [] => ([], .ok found)
  | found, var :: exports =>
    match table var.name with
    | none => ([], .error (notExported var.name))
    | some value =>
      let (inserted, result) := captureVars table maskMinLen (found.add var value maskMinLen) exports
      ((var.name, value) :: inserted, result)

/-- `content` is what reading the capture file gives. -/
def captureExports (content : Except Text (List UInt8)) (exports : List ExportVar) (maskMinLen : Nat) :
    List (String × Text) × Except Text Found :=
  match content with
  | .error e => ([], .error ("failed to read capture file ".toList ++ e))
  | .ok bytes =>
    match parseCaptureRecordsChecked bytes (some (exports.map ExportVar.name)) with
    | .error e =>
      ([], .error ("failed to parse `@export` capture records: ".toList ++ e.message))
    | .ok table => captureVars table maskMinLen ⟨[], []⟩ exports

end Registered

section RoundTrip
variable {exports : List ExportVar} {sh : Shell} {trace : List (List UInt8) → Text}

theorem fromUtf8_encode (t : Text) : fromUtf8 (encode t) = some t := by
  have h := BufRead.decode_encode t BufRead.stuck_nil
  rw [List.append_nil] at h
  rw [fromUtf8, h]
  rfl

/-- The bytes of a variable name are neither the separator nor the equals sign. -/
theorem notMem_encode_name {name : String} (h : isValidVarName name = true) :
    captureSeparator ∉ encode name.toList ∧ equalsSign ∉ encode name.toList := by
  have hvar := varChar_of_isValidVarName h
  constructor
  · refine notMem_encode (by decide) fun c hc => ?_
    obtain ⟨hlow, -, -⟩ := varChar_bounds (hvar c hc)
    show c.val.toNat ≠ 0
    omega
  · exact notMem_encode (by decide) fun c hc => (varChar_bounds (hvar c hc)).2.2

theorem split_at_equals {name : List UInt8} (h : equalsSign ∉ name) (value : List UInt8) :
    (name ++ equalsSign :: value).takeWhile (· ≠ equalsSign) = name ∧
      (name ++ equalsSign :: value).dropWhile (· ≠ equalsSign) = equalsSign :: value := by
  have hname : ∀ b ∈ name, decide (b ≠ equalsSign) = true := by
    intro b hb
    rw [decide_eq_true_eq]
    rintro rfl
    exact h hb
  constructor
  · rw [List.takeWhile_append_of_pos hname, List.takeWhile_cons_of_neg (by simp), List.append_nil]
  · rw [List.dropWhile_append_of_pos hname, List.dropWhile_cons_of_neg (by simp)]

def isAllowed (allowed : Option (List String)) (name : String) : Bool :=
  allowed.all (·.contains name)

theorem parseRecord_captureRecord {allowed : Option (List String)} {name : String} {value : Text}
    {bytes : List UInt8} (hvalid : isValidVarName name = true) (hvalue : fromUtf8 bytes = some value) :
    parseRecord allowed (encode name.toList ++ equalsSign :: bytes) =
      if isAllowed allowed name then .ok (name, value) else .error (.unexpectedVar name) := by
  obtain ⟨htake, hdrop⟩ := split_at_equals (notMem_encode_name hvalid).2 bytes
  have hne : decide (name = "") = false := by
    refine decide_eq_false fun hempty => ?_
    subst hempty
    cases hvalid
  rw [parseRecord, htake, hdrop]
  dsimp only
  rw [fromUtf8_encode, hvalue]
  dsimp only
  rw [String.ofList_toList, hne, hvalid, if_neg (by decide), isAllowed]
  cases allowed with
  | none => rfl
  | some names => simp

/-- A record is read up to its separator, whatever its value is. -/
theorem parseRecords_captureRecord {allowed : Option (List String)} {out : Table} {name : String}
    {value : Text} {bytes : List UInt8} (hvalid : isValidVarName name = true)
    (hzero : captureSeparator ∉ bytes) (hvalue : fromUtf8 bytes = some value) (rest : List UInt8) :
    parseRecords allowed out ((captureRecord name bytes ++ rest).splitOn captureSeparator) =
      if isAllowed allowed name then
        parseRecords allowed (Function.update out name (some value)) (rest.splitOn captureSeparator)
      else .error (.unexpectedVar name) := by
  have hrecord : captureSeparator ∉ encode name.toList ++ equalsSign :: bytes := by
    rw [List.mem_append, List.mem_cons, not_or, not_or]
    exact ⟨(notMem_encode_name hvalid).1, by decide, hzero⟩
  have hsplit : captureRecord name bytes ++ rest =
      (encode name.toList ++ equalsSign :: bytes) ++ captureSeparator :: rest := by
    simp [captureRecord]
  rw [hsplit, List.splitOn_append_cons_self_of_not_mem hrecord, parseRecords, if_neg (by simp),
    parseRecord_captureRecord hvalid hvalue]
  cases isAllowed allowed name with
  | true => rfl
  | false => rfl

/-- What the table holds after the records of the variables. -/
def recorded (sh : Shell) (exports : List ExportVar) (out : Table) : Table :=
  exports.foldl
    (fun out var => Function.update out var.name ((sh.expand var.name).bind fromUtf8)) out

theorem recorded_eq {out : Table} {x : String} : recorded sh exports out x =
    if x ∈ exports.map ExportVar.name then (sh.expand x).bind fromUtf8 else out x := by
  induction exports generalizing out with
  | nil => rfl
  | cons var exports ih =>
    rw [recorded, List.foldl_cons, ← recorded, ih, List.map_cons]
    by_cases hlater : x ∈ exports.map ExportVar.name
    · rw [if_pos hlater, if_pos (List.mem_cons_of_mem _ hlater)]
    · rw [if_neg hlater]
      by_cases hhere : x = var.name
      · subst hhere
        rw [if_pos List.mem_cons_self, Function.update_self]
      · rw [if_neg (List.not_mem_cons_of_ne_of_not_mem hhere hlater), Function.update_of_ne hhere]

/-- The records that the statements leave are read back as the values of the variables. -/
theorem parseRecords_runStatements {names : List String} {out : Table}
    (hnames : ∀ var ∈ exports, var.name ∈ names ∧ isValidVarName var.name = true)
    (hvalues : ∀ var ∈ exports, ∀ value, sh.expand var.name = some value →
      captureSeparator ∉ value ∧ (fromUtf8 value).isSome)
    (hpassed : (runStatements trace sh exports).passed = true) :
    parseRecords (some names) out
        ((runStatements trace sh exports).written.splitOn captureSeparator) =
      .ok (recorded sh exports out) := by
  induction exports generalizing out with
  | nil =>
    rw [runStatements, List.splitOn_nil]
    rfl
  | cons var exports ih =>
    obtain ⟨⟨hname, hvalid⟩, hnames⟩ := List.forall_mem_cons.mp hnames
    obtain ⟨hvalue, hvalues⟩ := List.forall_mem_cons.mp hvalues
    rw [runStatements] at hpassed ⊢
    cases hexpand : sh.expand var.name with
    | none =>
      rw [hexpand] at hpassed
      cases hpassed
    | some value =>
      rw [hexpand] at hpassed
      obtain ⟨hzero, hutf8⟩ := hvalue value hexpand
      obtain ⟨text, htext⟩ := Option.isSome_iff_exists.mp hutf8
      have hlisted : isAllowed (some names) var.name = true := List.contains_iff_mem.mpr hname
      have hstep : recorded sh (var :: exports) out =
          recorded sh exports (Function.update out var.name (some text)) := by
        rw [recorded, List.foldl_cons, hexpand, Option.bind_some, htext, recorded]
      dsimp only
      rw [parseRecords_captureRecord hvalid hzero htext, if_pos hlisted, ih hnames hvalues hpassed,
        hstep]

end RoundTrip

section Masks
variable {table : Table} {maskMinLen : Nat} {exports : List ExportVar} {found found' : Found}

theorem Found.mem_add {var : ExportVar} {v value : Text} (h : v ∈ found.masks) :
    v ∈ (found.add var value maskMinLen).masks := by
  rw [Found.add]
  cases maskingFor var value maskMinLen with
  | global =>
    dsimp only
    split
    · exact h
    · exact List.mem_append_left _ h
  | narrow => exact h
  | none => exact h

theorem Found.mem_add_self {var : ExportVar} {value : Text} (hprivate : var.isPublic = false)
    (hne : value ≠ []) (hlen : maskMinLen ≤ byteLen value) :
    value ∈ (found.add var value maskMinLen).masks := by
  have hempty : value.isEmpty = false := List.isEmpty_eq_false_iff.mpr hne
  rw [Found.add, maskingFor, hprivate, hempty, if_neg (by decide), if_pos hlen]
  dsimp only
  split
  · assumption
  · exact List.mem_append_right _ List.mem_cons_self

theorem mem_captureVars {v : Text}
    (h : (captureVars table maskMinLen found exports).2 = .ok found') (hv : v ∈ found.masks) :
    v ∈ found'.masks := by
  induction exports generalizing found with
  | nil =>
    cases h
    exact hv
  | cons var exports ih =>
    rw [captureVars] at h
    cases htable : table var.name with
    | none =>
      rw [htable] at h
      cases h
    | some value =>
      rw [htable] at h
      exact ih h (Found.mem_add hv)

theorem table_of_inserted {x : String} {v : Text}
    (h : (x, v) ∈ (captureVars table maskMinLen found exports).1) : table x = some v := by
  induction exports generalizing found with
  | nil => cases h
  | cons var exports ih =>
    rw [captureVars] at h
    cases htable : table var.name with
    | none =>
      rw [htable] at h
      cases h
    | some value =>
      rw [htable] at h
      rcases List.mem_cons.mp h with heq | hrest
      · obtain ⟨rfl, rfl⟩ := Prod.mk.inj heq
        exact htable
      · exact ih hrest

/-- When no variable is missing, the value of one that is not public is registered if it is long enough. -/
theorem captured_registered {var : ExportVar} {v : Text}
    (h : (captureVars table maskMinLen found exports).2 = .ok found') (hvar : var ∈ exports)
    (htable : table var.name = some v) (hprivate : var.isPublic = false) (hne : v ≠ [])
    (hlen : maskMinLen ≤ byteLen v) : v ∈ found'.masks := by
  induction exports generalizing found with
  | nil => cases hvar
  | cons var' exports ih =>
    rw [captureVars] at h
    rcases List.mem_cons.mp hvar with rfl | hvar
    · rw [htable] at h
      exact mem_captureVars h (Found.mem_add_self hprivate hne hlen)
    · cases htable' : table var'.name with
      | none =>
        rw [htable'] at h
        cases h
      | some value =>
        rw [htable'] at h
        exact ih h hvar

theorem registered_captureExports {content : Except Text (List UInt8)} {inserted : List (String × Text)}
    {var : ExportVar} {v : Text}
    (h : captureExports content exports maskMinLen = (inserted, .ok found')) (hvar : var ∈ exports)
    (hinserted : (var.name, v) ∈ inserted) (hprivate : var.isPublic = false) (hne : v ≠ [])
    (hlen : maskMinLen ≤ byteLen v) : v ∈ found'.masks := by
  cases content with
  | error e => cases h
  | ok bytes =>
    rw [captureExports] at h
    cases htable : parseCaptureRecordsChecked bytes (some (exports.map ExportVar.name)) with
    | error e =>
      rw [htable] at h
      cases h
    | ok table =>
      rw [htable] at h
      have hvars : captureVars table maskMinLen ⟨[], []⟩ exports = (inserted, .ok found') := h
      have hmem : (var.name, v) ∈ (captureVars table maskMinLen ⟨[], []⟩ exports).1 := by
        rw [hvars]
        exact hinserted
      exact captured_registered (congrArg Prod.snd hvars) hvar (table_of_inserted hmem) hprivate hne
        hlen

/-- A variable that joins the run state has the value that its statement captured. -/
theorem inserted_of_statements {sh : Shell} {trace : List (List UInt8) → Text} {x : String} {v : Text}
    (hnames : ∀ var ∈ exports, isValidVarName var.name = true)
    (hvalues : ∀ var ∈ exports, ∀ value, sh.expand var.name = some value →
      captureSeparator ∉ value ∧ (fromUtf8 value).isSome)
    (hpassed : (runStatements trace sh exports).passed = true)
    (h : (x, v) ∈ (captureExports (.ok (runStatements trace sh exports).written) exports maskMinLen).1) :
    (sh.expand x).bind fromUtf8 = some v := by
  have hlisted : ∀ var ∈ exports, var.name ∈ exports.map ExportVar.name ∧
      isValidVarName var.name = true :=
    fun var hvar => ⟨List.mem_map_of_mem hvar, hnames var hvar⟩
  rw [captureExports, parseCaptureRecordsChecked,
    parseRecords_runStatements hlisted hvalues hpassed] at h
  have htable := table_of_inserted h
  rw [recorded_eq] at htable
  split at htable
  · exact htable
  · cases htable

end Masks

end Shellflow.Capture
