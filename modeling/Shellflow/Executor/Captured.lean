import Shellflow.Executor.Capture
import Shellflow.Lib.Assoc

/-! What the capture file gives back: the records of a list of values, and what of them joins the run
state. -/
namespace Shellflow.Capture
open Bytes Assoc

section Records
variable {allowed : Option (List String)} {out : Table}

/-- The file that holds a record for each of the values. -/
def recordsOf (pairs : List (String × Text)) : List UInt8 :=
  pairs.flatMap fun p => captureRecord p.1 (encode p.2)

/-- The bytes of a value are separated from no other one when it has no NUL. -/
theorem separator_notMem {value : Text} (h : '\x00' ∉ value) : captureSeparator ∉ encode value := by
  refine notMem_encode (by decide) fun c hc hzero => h ?_
  have hnul : c = '\x00' := Char.ext (UInt32.toNat_inj.mp hzero)
  exact hnul ▸ hc

theorem parseRecords_recordsOf {pairs : List (String × Text)}
    (hnames : ∀ p ∈ pairs, isValidVarName p.1 = true) (hvalues : ∀ p ∈ pairs, '\x00' ∉ p.2) :
    parseRecords allowed out ((recordsOf pairs).splitOn captureSeparator) =
      match pairs.find? fun p => !isAllowed allowed p.1 with
      | some p => .error (.unexpectedVar p.1)
      | none => .ok fun name => (last? name pairs).or (out name) := by
  induction pairs generalizing out with
  | nil => rfl
  | cons p pairs ih =>
    obtain ⟨hvalid, hnames⟩ := List.forall_mem_cons.mp hnames
    obtain ⟨hnul, hvalues⟩ := List.forall_mem_cons.mp hvalues
    rw [recordsOf, List.flatMap_cons, ← recordsOf,
      parseRecords_captureRecord hvalid (separator_notMem hnul) (fromUtf8_encode p.2), List.find?_cons]
    cases hallowed : isAllowed allowed p.1 with
    | false => rfl
    | true =>
      rw [if_pos rfl, ih hnames hvalues]
      have hlast : ∀ name, (last? name pairs).or (Function.update out p.1 (some p.2) name) =
          (last? name (p :: pairs)).or (out name) := by
        intro name
        have hcons : last? name (p :: pairs) = (last? name pairs).or (last? name [p]) :=
          last?_append name [p] pairs
        have hone := last?_concat name [] p
        rw [List.nil_append, last?_nil] at hone
        rw [hcons, hone, Option.or_assoc]
        by_cases hname : p.1 = name
        · rw [if_pos hname, hname, Function.update_self]
          rfl
        · rw [if_neg hname, Function.update_of_ne (Ne.symm hname)]
          rfl
      simp only [hlast, Bool.not_true]

theorem parseChecked_recordsOf {pairs : List (String × Text)}
    (hnames : ∀ p ∈ pairs, isValidVarName p.1 = true) (hvalues : ∀ p ∈ pairs, '\x00' ∉ p.2) :
    parseCaptureRecordsChecked (recordsOf pairs) allowed =
      match pairs.find? fun p => !isAllowed allowed p.1 with
      | some p => .error (.unexpectedVar p.1)
      | none => .ok fun name => last? name pairs := by
  rw [parseCaptureRecordsChecked, parseRecords_recordsOf hnames hvalues]
  simp only [Option.or_none]

/-- The records of a list of values are read back as that list; no value makes a record of its own. -/
theorem capture_roundTrip (pairs : List (String × Text)) (allowed : Option (List String))
    (hnames : ∀ p ∈ pairs, isValidVarName p.1 = true) (hvalues : ∀ p ∈ pairs, '\x00' ∉ p.2) :
    ((∀ p ∈ pairs, isAllowed allowed p.1 = true) →
      parseCaptureRecordsChecked (recordsOf pairs) allowed = .ok fun name => last? name pairs) ∧
    ((∃ p ∈ pairs, isAllowed allowed p.1 = false) →
      ∃ p ∈ pairs, isAllowed allowed p.1 = false ∧
        parseCaptureRecordsChecked (recordsOf pairs) allowed = .error (.unexpectedVar p.1)) ∧
    ∀ table name value, parseCaptureRecordsChecked (recordsOf pairs) allowed = .ok table →
      table name = some value → (name, value) ∈ pairs := by
  rw [parseChecked_recordsOf hnames hvalues]
  cases hfind : pairs.find? fun p => !isAllowed allowed p.1 with
  | none =>
    have hall : ∀ p ∈ pairs, isAllowed allowed p.1 = true := by simpa using hfind
    refine ⟨fun _ => rfl, fun ⟨p, hp, hforeign⟩ => ?_, fun table name value htable hvalue => ?_⟩
    · rw [hall p hp] at hforeign
      cases hforeign
    · cases htable
      exact mem_of_last? hvalue
  | some p =>
    have hp := List.mem_of_find?_eq_some hfind
    have hforeign : isAllowed allowed p.1 = false := by simpa using List.find?_some hfind
    refine ⟨fun hall => ?_, fun _ => ⟨p, hp, hforeign, rfl⟩, fun table name value htable => ?_⟩
    · rw [hall p hp] at hforeign
      cases hforeign
    · cases htable

/-- A value with a newline, an equals sign and a look of a record stays one value. -/
theorem capture_roundTrip_newline :
    isAllowed none "TOKEN" = true ∧
    parseCaptureRecordsChecked (recordsOf [("TOKEN", "a\nPATH=b".toList)]) none =
      .ok fun name => last? name [("TOKEN", "a\nPATH=b".toList)] :=
  ⟨rfl, (capture_roundTrip [("TOKEN", "a\nPATH=b".toList)] none (by decide) (by decide)).1
    fun _ _ => rfl⟩

end Records

section RunState
variable {state : Table} {content : Except Text (List UInt8)} {exports : List ExportVar}
  {maskMinLen : Nat}

/-- The value that a record gives to a name. -/
def recordValue (name : String) (record : List UInt8) : Option Text :=
  match record.dropWhile (· ≠ equalsSign) with
  | [] => none
  | _ :: value =>
    if fromUtf8 (record.takeWhile (· ≠ equalsSign)) = some name.toList then fromUtf8 value else none

/-- The value of the last record of a name. -/
def lastRecorded (bytes : List UInt8) (name : String) : Option Text :=
  ((bytes.splitOn captureSeparator).filterMap (recordValue name)).getLast?

/-- The run state when the variables have joined it. -/
def insertVars (state : Table) (inserted : List (String × Text)) : Table :=
  inserted.foldl (fun state p => Function.update state p.1 (some p.2)) state

/-- What the declaration asks for is handed over for registration. -/
def Offered (found : Found) (var : ExportVar) (value : Text) (maskMinLen : Nat) : Prop :=
  match maskingFor var value maskMinLen with
  | .global => value ∈ found.masks
  | .narrow => (var.name.toList, value) ∈ found.shorts
  | .none => True

/-- The capture lands completely or not at all. -/
structure Lands (state : Table) (content : Except Text (List UInt8)) (exports : List ExportVar)
    (maskMinLen : Nat) : Prop where
  unchanged : ∀ e, (captureExports content exports maskMinLen).2 = .error e →
    insertVars state (captureExports content exports maskMinLen).1 = state
  offered : ∀ var ∈ exports, ∀ value,
    (var.name, value) ∈ (captureExports content exports maskMinLen).1 →
    ∃ found, (captureExports content exports maskMinLen).2 = .ok found ∧
      Offered found var value maskMinLen
  bound : ∀ bytes found, content = .ok bytes →
    (captureExports content exports maskMinLen).2 = .ok found → ∀ var ∈ exports, ∃ value,
      lastRecorded bytes var.name = some value ∧
        insertVars state (captureExports content exports maskMinLen).1 var.name = some value

/-- No variable is missing behind one that is there. -/
def NoneMissingLater (table : Table) (exports : List ExportVar) : Prop :=
  (∀ var ∈ exports, (table var.name).isSome) ∨ ∀ var, exports.head? = some var → table var.name = none

/-- Nothing is read, or no variable is missing behind one that is there. -/
def Whole (content : Except Text (List UInt8)) (exports : List ExportVar) : Prop :=
  ∀ bytes, content = .ok bytes → ∀ table,
    parseCaptureRecordsChecked bytes (some (exports.map ExportVar.name)) = .ok table →
      NoneMissingLater table exports

theorem insertVars_eq (state : Table) (inserted : List (String × Text)) (x : String) :
    insertVars state inserted x = (last? x inserted).or (state x) := by
  induction inserted using List.reverseRecOn with
  | nil => rfl
  | append_singleton inserted p ih =>
    have hstep : insertVars state (inserted ++ [p]) =
        Function.update (insertVars state inserted) p.1 (some p.2) := by
      rw [insertVars, List.foldl_append]
      rfl
    rw [hstep, last?_concat]
    by_cases hx : p.1 = x
    · rw [if_pos hx, hx, Function.update_self]
      rfl
    · rw [if_neg hx, Function.update_of_ne (Ne.symm hx), ih]

/-- A record that is accepted gives its value to its name only. -/
theorem recordValue_of_parse {allowed : Option (List String)} {record : List UInt8} {p : String × Text}
    (h : parseRecord allowed record = .ok p) (name : String) :
    recordValue name record = if p.1 = name then some p.2 else none := by
  rw [parseRecord] at h
  rw [recordValue]
  cases hrest : record.dropWhile (· ≠ equalsSign) with
  | nil =>
    rw [hrest] at h
    cases h
  | cons b value =>
    rw [hrest] at h
    dsimp only at h ⊢
    cases hname : fromUtf8 (record.takeWhile (· ≠ equalsSign)) with
    | none =>
      rw [hname] at h
      cases h
    | some chars =>
      cases hvalue : fromUtf8 value with
      | none =>
        rw [hname, hvalue] at h
        cases h
      | some text =>
        rw [hname, hvalue] at h
        dsimp only at h
        split at h
        · cases h
        · split at h
          · cases h
          · cases h
            have hiff : some chars = some name.toList ↔ String.ofList chars = name := by
              rw [Option.some_inj, ← String.toList_inj, String.toList_ofList]
            simp only [hiff]

/-- The table holds what the last record of each name says. -/
theorem lastRecorded_of_parse {allowed : Option (List String)} {records : List (List UInt8)}
    {out table : Table} (h : parseRecords allowed out records = .ok table) (name : String) :
    table name = (records.filterMap (recordValue name)).getLast?.or (out name) := by
  induction records generalizing out with
  | nil =>
    cases h
    rfl
  | cons record records ih =>
    rw [parseRecords] at h
    by_cases hempty : record = []
    · rw [if_pos hempty] at h
      rw [hempty]
      exact ih h
    · rw [if_neg hempty] at h
      cases hrecord : parseRecord allowed record with
      | error e =>
        rw [hrecord] at h
        cases h
      | ok p =>
        rw [hrecord] at h
        rw [ih h, List.filterMap_cons, recordValue_of_parse hrecord]
        by_cases hname : p.1 = name
        · rw [if_pos hname, ← hname, Function.update_self, List.getLast?_cons]
          cases (records.filterMap (recordValue p.1)).getLast? <;> rfl
        · rw [if_neg hname, Function.update_of_ne (Ne.symm hname)]

section Loop
variable {table : Table} {found found' : Found}

/-- What was handed over stays so while the values of the same table are added. -/
theorem Offered.add {var var' : ExportVar} {value value' : Text} (hvalue : table var.name = some value)
    (hvalue' : table var'.name = some value') (h : Offered found var value maskMinLen) :
    Offered (found.add var' value' maskMinLen) var value maskMinLen := by
  unfold Offered at h ⊢
  cases hmasking : maskingFor var value maskMinLen with
  | global =>
    rw [hmasking] at h
    exact Found.mem_add h
  | none => trivial
  | narrow =>
    rw [hmasking] at h
    dsimp only at h ⊢
    rw [Found.add]
    cases maskingFor var' value' maskMinLen with
    | global =>
      dsimp only
      split
      · exact h
      · exact h
    | none => exact h
    | narrow =>
      rw [List.mem_append, List.mem_filter, List.mem_singleton]
      by_cases hname : var.name = var'.name
      · rw [hname, hvalue', Option.some_inj] at hvalue
        exact .inr (by rw [hname, hvalue])
      · refine .inl ⟨h, decide_eq_true fun hsame => hname (String.toList_inj.mp hsame)⟩

theorem Offered.self (found : Found) (var : ExportVar) (value : Text) :
    Offered (found.add var value maskMinLen) var value maskMinLen := by
  unfold Offered
  rw [Found.add]
  cases maskingFor var value maskMinLen with
  | none => trivial
  | narrow => exact List.mem_append_right _ List.mem_cons_self
  | global =>
    dsimp only
    split
    · assumption
    · exact List.mem_append_right _ List.mem_cons_self

theorem captureVars_keeps {var : ExportVar} {value : Text} (hvalue : table var.name = some value)
    (h : (captureVars table maskMinLen found exports).2 = .ok found')
    (hoffered : Offered found var value maskMinLen) : Offered found' var value maskMinLen := by
  induction exports generalizing found with
  | nil =>
    cases h
    exact hoffered
  | cons var' exports ih =>
    rw [captureVars] at h
    cases htable : table var'.name with
    | none =>
      rw [htable] at h
      cases h
    | some value' =>
      rw [htable] at h
      exact ih h (hoffered.add hvalue htable)

/-- When no variable is missing, each of them joins the run state and is handed over. -/
theorem captureVars_ok (h : (captureVars table maskMinLen found exports).2 = .ok found')
    {var : ExportVar} (hvar : var ∈ exports) :
    ∃ value, table var.name = some value ∧ Offered found' var value maskMinLen ∧
      (var.name, value) ∈ (captureVars table maskMinLen found exports).1 := by
  induction exports generalizing found with
  | nil => cases hvar
  | cons first exports ih =>
    rw [captureVars] at h ⊢
    cases htable : table first.name with
    | none =>
      rw [htable] at h
      cases h
    | some value =>
      rw [htable] at h
      cases List.mem_cons.mp hvar with
      | inl heq =>
        subst heq
        exact ⟨value, htable, captureVars_keeps htable h (.self found var value), List.mem_cons_self⟩
      | inr hlater =>
        obtain ⟨value', hvalue', hoffered, hmem⟩ := ih h hlater
        exact ⟨value', hvalue', hoffered, List.mem_cons_of_mem _ hmem⟩

theorem captureVars_succeeds (h : ∀ var ∈ exports, (table var.name).isSome) :
    ∃ found', (captureVars table maskMinLen found exports).2 = .ok found' := by
  induction exports generalizing found with
  | nil => exact ⟨found, rfl⟩
  | cons var exports ih =>
    obtain ⟨hvar, hrest⟩ := List.forall_mem_cons.mp h
    obtain ⟨value, hvalue⟩ := Option.isSome_iff_exists.mp hvar
    rw [captureVars, hvalue]
    exact ih hrest

end Loop

/-- A variable that is missing behind another one leaves a part of the capture. -/
theorem captureVars_fails {var : ExportVar} {rest : List ExportVar} {value : Text} {table : Table}
    {found : Found} (hvalue : table var.name = some value)
    (hmissing : ∃ later ∈ rest, table later.name = none) :
    (var.name, value) ∈ (captureVars table maskMinLen found (var :: rest)).1 ∧
      ∀ found', (captureVars table maskMinLen found (var :: rest)).2 ≠ .ok found' := by
  constructor
  · rw [captureVars, hvalue]
    exact List.mem_cons_self
  · intro found' hok
    obtain ⟨later, hlater, hnone⟩ := hmissing
    obtain ⟨value', hvalue', -⟩ := captureVars_ok hok (List.mem_cons_of_mem _ hlater)
    rw [hnone] at hvalue'
    cases hvalue'

/-- The variables that join the run state have the values of the table. -/
theorem insertVars_of_table {table : Table} {found : Found} {x : String} {value : Text}
    (h : (x, value) ∈ (captureVars table maskMinLen found exports).1) :
    insertVars state (captureVars table maskMinLen found exports).1 x = table x := by
  obtain ⟨value', hlast⟩ := Option.isSome_iff_exists.mp (last?_isSome.mpr (mem_keys_of_mem h))
  rw [insertVars_eq, hlast, table_of_inserted (mem_of_last? hlast)]
  rfl

theorem lands_of_nothing {e : Text} (h : captureExports content exports maskMinLen = ([], .error e)) :
    Lands state content exports maskMinLen := by
  refine ⟨fun _ _ => ?_, fun _ _ _ hmem => ?_, fun _ _ _ hok => ?_⟩
  · rw [h]
    rfl
  · rw [h] at hmem
    cases hmem
  · rw [h] at hok
    cases hok

theorem lands_of_all {bytes : List UInt8} {table : Table}
    (htable : parseCaptureRecordsChecked bytes (some (exports.map ExportVar.name)) = .ok table)
    (hall : ∀ var ∈ exports, (table var.name).isSome) :
    Lands state (.ok bytes) exports maskMinLen := by
  have hvars : captureExports (.ok bytes) exports maskMinLen =
      captureVars table maskMinLen ⟨[], []⟩ exports := by rw [captureExports, htable]
  obtain ⟨found, hfound⟩ : ∃ found, (captureVars table maskMinLen ⟨[], []⟩ exports).2 = .ok found :=
    captureVars_succeeds hall
  refine ⟨fun e he => ?_, fun var hvar value hmem => ?_, fun bytes' found' hbytes _ var hvar => ?_⟩
  · rw [hvars, hfound] at he
    cases he
  · rw [hvars] at hmem ⊢
    obtain ⟨value', hvalue', hoffered, -⟩ := captureVars_ok hfound hvar
    rw [table_of_inserted hmem, Option.some_inj] at hvalue'
    exact ⟨found, hfound, hvalue' ▸ hoffered⟩
  · cases hbytes
    obtain ⟨value, hvalue, -, hmem⟩ := captureVars_ok hfound hvar
    refine ⟨value, ?_, by rw [hvars, insertVars_of_table hmem, hvalue]⟩
    rw [lastRecorded, ← hvalue, lastRecorded_of_parse htable, Option.or_none]

/-- The capture lands completely or not at all exactly when no variable is missing behind one that is
there. -/
theorem captureExports_lands_iff (state : Table) (content : Except Text (List UInt8))
    (exports : List ExportVar) (maskMinLen : Nat) :
    Lands state content exports maskMinLen ↔ Whole content exports := by
  constructor
  · intro hlands bytes hbytes table htable
    subst hbytes
    have hvars : captureExports (.ok bytes) exports maskMinLen =
        captureVars table maskMinLen ⟨[], []⟩ exports := by rw [captureExports, htable]
    by_contra hpartly
    obtain ⟨hmissing, hfirst⟩ := not_or.mp hpartly
    cases exports with
    | nil => exact hmissing (List.forall_mem_nil _)
    | cons var rest =>
      obtain ⟨value, hvalue⟩ : ∃ value, table var.name = some value := by
        simpa [Option.ne_none_iff_exists'] using hfirst
      have hlater : ∃ later ∈ rest, table later.name = none := by
        simpa [hvalue] using hmissing
      obtain ⟨hmem, hfails⟩ := @captureVars_fails maskMinLen var rest value table ⟨[], []⟩ hvalue hlater
      rw [← hvars] at hmem hfails
      obtain ⟨found, hok, -⟩ := hlands.offered var List.mem_cons_self value hmem
      exact hfails found hok
  · intro hwhole
    cases content with
    | error e => exact lands_of_nothing rfl
    | ok bytes =>
      cases htable : parseCaptureRecordsChecked bytes (some (exports.map ExportVar.name)) with
      | error e =>
        exact lands_of_nothing (e := "failed to parse `@export` capture records: ".toList ++ e.message)
          (by rw [captureExports, htable])
      | ok table =>
        cases hwhole bytes rfl table htable with
        | inl hall => exact lands_of_all htable hall
        | inr hfirst =>
          cases exports with
          | nil => exact lands_of_all htable (List.forall_mem_nil _)
          | cons var rest =>
            refine lands_of_nothing (e := notExported var.name) ?_
            rw [captureExports, htable]
            dsimp only
            rw [captureVars, hfirst var rfl]

/-- The first variable stays behind in the run state, and its value is not registered. -/
theorem captured_before_a_missing_one :
    (captureExports (.ok (recordsOf [("TOKEN", "hunter22".toList)]))
        [⟨"TOKEN", false⟩, ⟨"SERIAL", false⟩] 6).2 = .error (notExported "SERIAL") ∧
      insertVars (fun _ => none) (captureExports (.ok (recordsOf [("TOKEN", "hunter22".toList)]))
        [⟨"TOKEN", false⟩, ⟨"SERIAL", false⟩] 6).1 "TOKEN" = some "hunter22".toList ∧
      ¬ Lands (fun _ => none) (.ok (recordsOf [("TOKEN", "hunter22".toList)]))
        [⟨"TOKEN", false⟩, ⟨"SERIAL", false⟩] 6 := by
  have hparse : parseCaptureRecordsChecked (recordsOf [("TOKEN", "hunter22".toList)])
      (some ["TOKEN", "SERIAL"]) = .ok fun name => (last? name [("TOKEN", "hunter22".toList)]).or none :=
    parseRecords_recordsOf (by decide) (by decide)
  have hcapture : captureExports (.ok (recordsOf [("TOKEN", "hunter22".toList)]))
      [⟨"TOKEN", false⟩, ⟨"SERIAL", false⟩] 6 =
        ([("TOKEN", "hunter22".toList)], .error (notExported "SERIAL")) := by
    rw [captureExports, List.map_cons, List.map_cons, List.map_nil, hparse]
    rfl
  rw [hcapture]
  refine ⟨rfl, rfl, fun hlands => ?_⟩
  have hstays := congrFun (hlands.unchanged (notExported "SERIAL") (by rw [hcapture])) "TOKEN"
  rw [hcapture] at hstays
  cases hstays

end RunState

end Shellflow.Capture
