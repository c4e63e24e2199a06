import Shellflow.Service.Findings
import Shellflow.Service.Probe

/-! The audit of a host: every check of every unit over the answers that came back, and how it
ends. -/
namespace Shellflow.ServiceCheck

structure Section where
  rc : Int
  body : String
  deriving DecidableEq

abbrev Sections := List (String × Section)

/-- An answer that is not there reads as an empty one. -/
def bodyOf (s : Option Section) : String := (s.map Section.body).getD ""

/-- A check with the ids it reads; one that panics has no verdicts. -/
inductive UnitCheck where
  | one (id : String) (verdicts : Option Section → Option (List Verdict))
  | two (id id' : String) (verdicts : Option Section → Option Section → Option (List Verdict))

namespace UnitCheck

def reads : UnitCheck → List String
  | one id _ => [id]
  | two id id' _ => [id, id']

def run (sections : Sections) : UnitCheck → Option (List Verdict)
  | one id verdicts => verdicts (sections.lookup id)
  | two id id' verdicts => verdicts (sections.lookup id) (sections.lookup id')

end UnitCheck

section Checks

def stateVerdicts (unit : String) (state : Option Section) : List Verdict :=
  let active := Str.trim (bodyOf state)
  [("unit " ++ unit ++ " is " ++ active, if active = "active" then .ok else .warn)]

def socketVerdicts (service : String) (load state : Option Section) : List Verdict :=
  let loadState := Str.trim (bodyOf load)
  if loadState ≠ "not-found" ∧ loadState ≠ "" then
    let active := Str.trim (bodyOf state)
    [("socket unit " ++ reportedSocket service ++ " is " ++ active ++ " (the port is systemd's)",
      if active = "active" then .ok else .warn)]
  else []

def argvVerdicts (m : CaseMapping) (props : Option Section) : List Verdict :=
  if hasArgvSecret m (bodyOf props) then
    [("secret value in ExecStart argv or Environment= (\x60ps\x60 visible)", .fail)]
  else [("no secret values in argv/Environment", .ok)]

def isImport (line : String) : Bool :=
  let t := Str.trimStart line
  Str.startsWith t "LoadCredentialEncrypted=" && !Str.endsWith t "="

def importVerdicts (unitFile : Option Section) : List Verdict :=
  let imports := (Str.lines (bodyOf unitFile)).countP isImport
  [(toString imports ++ " LoadCredentialEncrypted= import(s)", .ok)]

def userVerdicts (props : Option Section) : List Verdict :=
  let lines := Str.lines (bodyOf props)
  (if lines.any fun l =>
      Str.startsWith l "EnvironmentFile=" && !Str.endsWith l "=" && !Str.contains l "/dev/null" then
    [("EnvironmentFile= referenced (verify it carries no secrets)", Check.warn)] else []) ++
  (if lines.any fun l => l == "User=root" then
    [("runs as root (least-privilege follow-up)", .warn)] else [])

def pathVerdicts (paths : Option Section) : List Verdict :=
  let missing := missingPaths (bodyOf paths)
  if missing = [] then [("every path the unit references exists", .ok)]
  else missing.map fun path => ("unit references a missing path: " ++ path, .fail)

def storeVerdicts (store : Option Section) : List Verdict :=
  if store.all fun s => s.rc != 0 || Str.trim s.body == "" then
    [("credential store is empty", .warn)]
  else [("credential store present (0600 root expected)", .ok)]

def leakVerdicts (m : CaseMapping) (journal : Option Section) : Option (List Verdict) :=
  (journalLeaks m (bodyOf journal)).map fun leaks =>
    if leaks = [] then [("no secret-value shapes in the last journal lines", .ok)]
    else [("possible secret values in journal (" ++ toString leaks.length ++ " line(s), review)", .fail)]

def notifyVerdicts (m : CaseMapping) (props journal : Option Section) : List Verdict :=
  let findings := notifyFindings m (bodyOf props) (bodyOf journal)
  if findings = [] then [("notify/readiness wiring is sound", .ok)] else findings

def invariantVerdicts (props fleet : Option Section) : List Verdict :=
  let invariants := unitInvariantFindings (bodyOf props) (bodyOf fleet)
  if invariants = [] then [("unit invariants hold", .ok)] else invariants

def portVerdicts (ports : Option Section) : List Verdict :=
  (listeningPorts (bodyOf ports)).map fun message => (message, .ok)

/-- The checks of one unit in their order. -/
def checkUnit (m : CaseMapping) (service unit : String) : List UnitCheck :=
  [.one (sectionId unit "unit_state") fun s => some (stateVerdicts unit s),
    .two (sectionId unit "socket_load") (sectionId unit "socket_state") fun l s =>
      some (socketVerdicts service l s),
    .one (sectionId unit "props") fun s => some (argvVerdicts m s),
    .one (sectionId unit "unit_file") fun s => some (importVerdicts s),
    .one (sectionId unit "props") fun s => some (userVerdicts s),
    .one (sectionId unit "paths") fun s => some (pathVerdicts s),
    .one "credstore" fun s => some (storeVerdicts s),
    .one (sectionId unit "journal") (leakVerdicts m),
    .two (sectionId unit "props") (sectionId unit "journal") fun p j => some (notifyVerdicts m p j),
    .two (sectionId unit "props") "fleet_dirs" fun p f => some (invariantVerdicts p f),
    .one "ports" fun s => some (portVerdicts s)]

end Checks

/-- The checks of a unit read the ids that stand for it, each of them. -/
theorem mem_readIds_iff (m : CaseMapping) (service : String) {unit id : String} :
    id ∈ readIds unit ↔ ∃ c ∈ checkUnit m service unit, id ∈ c.reads := by
  simp only [readIds, readKinds, checkUnit, UnitCheck.reads, List.map_cons, List.map_nil,
    List.cons_append, List.nil_append, List.mem_cons, List.not_mem_nil, or_false,
    exists_eq_or_imp, exists_eq_left]
  tauto

/-- A printed verdict, with the ids its check read. -/
structure Report where
  reads : List String
  message : String
  status : Check

inductive Ending where
  | transport (message : String)
  | noService
  | failed (failures : Nat)
  | clean
  | panicked
  deriving DecidableEq

structure AuditRun where
  reports : List Report
  ending : Ending

section Run
variable (m : CaseMapping) (sections : Sections)

/-- The reports up to the first check that panics, and whether there is one. -/
def runChecks : List UnitCheck → List Report × Bool
  | [] => ([], false)
  | c :: cs =>
    match c.run sections with
    | none => ([], true)
    | some verdicts =>
      (verdicts.map (fun v => ⟨c.reads, v.1, v.2⟩) ++ (runChecks cs).1, (runChecks cs).2)

def failureCount (reports : List Report) : Nat := reports.countP fun r => r.status = .fail

/-- `Batch::finish`: an answer of any size but none is taken. -/
def finishBatch (host : String) (code : Option Int) (stderr : String) : Except String Sections :=
  if code = some 255 then .error ("ssh " ++ host ++ " could not connect: " ++ Str.trim stderr)
  else if sections = [] then .error ("ssh " ++ host ++ " returned no data: " ++ Str.trim stderr)
  else .ok sections

def auditUnits (units : List (String × String)) : AuditRun :=
  let r := runChecks sections (units.flatMap fun p => checkUnit m p.1 p.2)
  ⟨r.1, if r.2 then .panicked
    else if 0 < failureCount r.1 then .failed (failureCount r.1) else .clean⟩

/-- `service check` of a list of units; a single service is a list of one. -/
def check (host : String) (code : Option Int) (stderr : String) (units : List (String × String)) :
    AuditRun :=
  if units = [] then ⟨[], .noService⟩
  else match finishBatch sections host code stderr with
    | .error message => ⟨[], .transport message⟩
    | .ok answers => auditUnits m answers units

end Run

/-- What came back of a batch: answers to questions that it asks. -/
structure PartialAnswers (journalLines : Nat) (units : List (String × String)) where
  sections : Sections
  asked : ∀ entry ∈ sections, entry.1 ∈ (questions journalLines units).map Prod.fst

def Answered (sections : Sections) (id : String) : Prop := (sections.lookup id).isSome = true

/-- A verdict that something is fine rests on answers that came back. -/
def Honest (sections : Sections) (reports : List Report) : Prop :=
  ∀ r ∈ reports, r.status = .ok → ∀ id ∈ r.reads, Answered sections id

/-- No unanswered question is a clean audit. -/
def OnlyAnswersCount (m : CaseMapping) (sections : Sections) (units : List (String × String))
    (run : AuditRun) : Prop :=
  Honest sections run.reports ∧
    (run.ending = .clean → ∀ p ∈ units, ∀ c ∈ checkUnit m p.1 p.2, ∀ id ∈ c.reads,
      Answered sections id)

section Conditions
variable (m : CaseMapping) (sections : Sections)

def answer (unit kind : String) : Option Section := sections.lookup (sectionId unit kind)

/-- A line of the journal whose slice is out of its characters ends the audit. -/
def ScanPanics (unit : String) : Prop := journalLeaks m (bodyOf (answer sections unit "journal")) = none

/-- The answers that the verdicts of the unit take for granted. The shared directories matter only
where nothing else is found. -/
structure Grounded (unit : String) : Prop where
  props : Answered sections (sectionId unit "props")
  unitFile : Answered sections (sectionId unit "unit_file")
  paths : Answered sections (sectionId unit "paths")
  rest : ¬ ScanPanics m sections unit → Answered sections (sectionId unit "journal") ∧
    (Answered sections "fleet_dirs" ∨
      unitInvariantFindings (bodyOf (answer sections unit "props")) "" ≠ [])

/-- Every unit that is reached is grounded. -/
def NoGuess : List (String × String) → Prop
  | [] => True
  | p :: rest => Grounded m sections p.2 ∧ (¬ ScanPanics m sections p.2 → NoGuess rest)

/-- The answers about the unit give a `FAIL`. -/
def FailFinding (unit : String) : Prop :=
  let props := bodyOf (answer sections unit "props")
  let journal := bodyOf (answer sections unit "journal")
  hasArgvSecret m props = true ∨ missingPaths (bodyOf (answer sections unit "paths")) ≠ [] ∨
    (∃ leaks, journalLeaks m journal = some leaks ∧ leaks ≠ []) ∨
    (∃ v ∈ notifyFindings m props journal, v.2 = .fail) ∨
    ∃ v ∈ unitInvariantFindings props (bodyOf (sections.lookup "fleet_dirs")), v.2 = .fail

/-- The audit does not come to its clean end. -/
def Stopped (units : List (String × String)) : Prop :=
  ∃ p ∈ units, ScanPanics m sections p.2 ∨ FailFinding m sections p.2

end Conditions

section Runs
variable {m : CaseMapping} {sections : Sections} {c : UnitCheck} {cs : List UnitCheck}

def HonestCheck (sections : Sections) (c : UnitCheck) : Prop :=
  ∀ verdicts, c.run sections = some verdicts → ∀ v ∈ verdicts, v.2 = .ok →
    ∀ id ∈ c.reads, Answered sections id

theorem honest_append {a b : List Report} :
    Honest sections (a ++ b) ↔ Honest sections a ∧ Honest sections b :=
  List.forall_mem_append

theorem honest_runChecks_cons : Honest sections (runChecks sections (c :: cs)).1 ↔
    HonestCheck sections c ∧
      (c.run sections ≠ none → Honest sections (runChecks sections cs).1) := by
  rw [runChecks]
  cases hrun : c.run sections with
  | none => simp [Honest, HonestCheck, hrun]
  | some verdicts =>
    simp only [honest_append, HonestCheck, hrun, Option.some_inj, forall_eq', ne_eq, reduceCtorEq,
      not_false_eq_true, forall_const]
    refine and_congr_left fun _ => ?_
    simp only [Honest, List.forall_mem_map]

theorem panics_iff : (runChecks sections cs).2 = true ↔ ∃ c ∈ cs, c.run sections = none := by
  induction cs with
  | nil => simp [runChecks]
  | cons c cs ih =>
    rw [runChecks]
    cases hrun : c.run sections with
    | none => simp [hrun]
    | some verdicts => simp [hrun, ih]

theorem failureCount_append (a b : List Report) :
    failureCount (a ++ b) = failureCount a + failureCount b := List.countP_append

theorem failureCount_pos {reports : List Report} :
    0 < failureCount reports ↔ ∃ r ∈ reports, r.status = .fail := by
  simp [failureCount, List.countP_pos_iff]

/-- Without a panic every check reports. -/
theorem fails_iff_of_not_panics (h : ∀ c ∈ cs, c.run sections ≠ none) :
    0 < failureCount (runChecks sections cs).1 ↔
      ∃ c ∈ cs, ∃ verdicts, c.run sections = some verdicts ∧ ∃ v ∈ verdicts, v.2 = .fail := by
  induction cs with
  | nil => simp [runChecks, failureCount]
  | cons c cs ih =>
    rw [List.forall_mem_cons] at h
    rw [runChecks]
    cases hrun : c.run sections with
    | none => exact absurd hrun h.1
    | some verdicts =>
      rw [failureCount_append, Nat.add_pos_iff_pos_or_pos, ih h.2, failureCount_pos]
      simp [hrun]

theorem clean_iff {units : List (String × String)} : (auditUnits m sections units).ending = .clean ↔
    ∀ p ∈ units, ∀ c ∈ checkUnit m p.1 p.2, ∃ verdicts, c.run sections = some verdicts ∧
      ∀ v ∈ verdicts, v.2 ≠ .fail := by
  have hall : (∀ p ∈ units, ∀ c ∈ checkUnit m p.1 p.2, ∃ verdicts, c.run sections = some verdicts ∧
      ∀ v ∈ verdicts, v.2 ≠ .fail) ↔ ∀ c ∈ units.flatMap fun p => checkUnit m p.1 p.2,
        ∃ verdicts, c.run sections = some verdicts ∧ ∀ v ∈ verdicts, v.2 ≠ .fail := by
    simp only [List.mem_flatMap]
    exact ⟨fun h c hc => hc.elim fun p hp => h p hp.1 c hp.2, fun h p hp c hc => h c ⟨p, hp, hc⟩⟩
  rw [hall, auditUnits]
  generalize (units.flatMap fun p => checkUnit m p.1 p.2) = cs
  by_cases hpanic : (runChecks sections cs).2 = true
  · obtain ⟨c, hc, hrun⟩ := panics_iff.mp hpanic
    simp only [hpanic, if_true, reduceCtorEq, false_iff]
    intro h
    obtain ⟨verdicts, hverdicts, -⟩ := h c hc
    rw [hrun] at hverdicts
    cases hverdicts
  · have hruns : ∀ c ∈ cs, c.run sections ≠ none := by
      intro c hc hrun
      exact hpanic (panics_iff.mpr ⟨c, hc, hrun⟩)
    simp only [hpanic, if_false, Bool.false_eq_true]
    by_cases hfail : 0 < failureCount (runChecks sections cs).1
    · obtain ⟨c, hc, verdicts, hrun, v, hv, hvfail⟩ := (fails_iff_of_not_panics hruns).mp hfail
      simp only [hfail, if_true, reduceCtorEq, false_iff]
      intro h
      obtain ⟨verdicts', hrun', hnone⟩ := h c hc
      rw [hrun, Option.some_inj] at hrun'
      exact hnone v (hrun' ▸ hv) hvfail
    · simp only [hfail, if_false, true_iff]
      intro c hc
      obtain ⟨verdicts, hrun⟩ := Option.ne_none_iff_exists'.mp (hruns c hc)
      exact ⟨verdicts, hrun, fun v hv hvfail =>
        hfail ((fails_iff_of_not_panics hruns).mpr ⟨c, hc, verdicts, hrun, v, hv, hvfail⟩)⟩

end Runs

section Guesses
variable {m : CaseMapping} {sections : Sections} {id id' : String}

theorem lookup_of_not_answered (h : ¬ Answered sections id) : sections.lookup id = none :=
  Option.not_isSome_iff_eq_none.mp h

/-- A check of one answer guesses only where it finds an empty one fine. -/
theorem honestCheck_one {verdicts : Option Section → Option (List Verdict)} :
    HonestCheck sections (.one id verdicts) ↔ Answered sections id ∨
      ∀ vs, verdicts none = some vs → ∀ v ∈ vs, v.2 ≠ .ok := by
  by_cases h : Answered sections id
  · simp [HonestCheck, UnitCheck.reads, h]
  · simp [HonestCheck, UnitCheck.reads, UnitCheck.run, h, lookup_of_not_answered h]

theorem honestCheck_two {verdicts : Option Section → Option Section → Option (List Verdict)} :
    HonestCheck sections (.two id id' verdicts) ↔ (Answered sections id ∧ Answered sections id') ∨
      ∀ vs, verdicts (sections.lookup id) (sections.lookup id') = some vs → ∀ v ∈ vs, v.2 ≠ .ok := by
  by_cases h : Answered sections id ∧ Answered sections id'
  · simp [HonestCheck, UnitCheck.reads, h]
  · simp only [HonestCheck, UnitCheck.reads, UnitCheck.run, h, false_or, List.mem_cons,
      List.not_mem_nil, or_false, forall_eq_or_imp, forall_eq, imp_false, ne_eq]

theorem honest_state (unit : String) : HonestCheck sections
    (.one (sectionId unit "unit_state") fun s => some (stateVerdicts unit s)) := by
  rw [honestCheck_one]
  have hempty : Str.trim (bodyOf none) ≠ "active" := by decide
  simp [stateVerdicts, hempty]

theorem honest_socket (service unit : String) : HonestCheck sections
    (.two (sectionId unit "socket_load") (sectionId unit "socket_state") fun l s =>
      some (socketVerdicts service l s)) := by
  rw [honestCheck_two]
  have hnone : Str.trim (bodyOf none) = "" := by decide
  by_cases hload : Answered sections (sectionId unit "socket_load")
  · by_cases hstate : Answered sections (sectionId unit "socket_state")
    · exact .inl ⟨hload, hstate⟩
    · refine .inr fun vs hvs v hv => ?_
      rw [lookup_of_not_answered hstate] at hvs
      rw [← Option.some.inj hvs, socketVerdicts, hnone] at hv
      split at hv
      · rw [List.mem_singleton.mp hv]
        simp
      · exact absurd hv List.not_mem_nil
  · refine .inr fun vs hvs v hv => ?_
    rw [lookup_of_not_answered hload] at hvs
    rw [← Option.some.inj hvs, socketVerdicts, hnone] at hv
    exact absurd hv (by simp)

theorem honest_argv : HonestCheck sections (.one id fun s => some (argvVerdicts m s)) ↔
    Answered sections id := by
  rw [honestCheck_one]
  have hempty : hasArgvSecret m (bodyOf none) = false := hasArgvSecret_empty m
  simp [argvVerdicts, hempty]

theorem honest_imports : HonestCheck sections (.one id fun s => some (importVerdicts s)) ↔
    Answered sections id := by
  rw [honestCheck_one]
  simp [importVerdicts]

theorem honest_user : HonestCheck sections (.one id fun s => some (userVerdicts s)) := by
  rw [honestCheck_one]
  have hempty : Str.lines (bodyOf none) = [] := lines_empty
  simp [userVerdicts, hempty]

theorem honest_paths : HonestCheck sections (.one id fun s => some (pathVerdicts s)) ↔
    Answered sections id := by
  rw [honestCheck_one]
  have hempty : missingPaths (bodyOf none) = [] := missingPaths_empty
  simp [pathVerdicts, hempty]

theorem honest_store : HonestCheck sections (.one id fun s => some (storeVerdicts s)) := by
  rw [honestCheck_one]
  simp [storeVerdicts]

theorem honest_leaks : HonestCheck sections (.one id (leakVerdicts m)) ↔ Answered sections id := by
  rw [honestCheck_one]
  have hempty : journalLeaks m (bodyOf none) = some [] := journalLeaks_empty m
  simp [leakVerdicts, hempty]

theorem honest_ports : HonestCheck sections (.one id fun s => some (portVerdicts s)) := by
  rw [honestCheck_one]
  have hempty : listeningPorts (bodyOf none) = [] := listeningPorts_empty
  simp [portVerdicts, hempty]

theorem honest_notify (h : Answered sections id) (h' : Answered sections id') :
    HonestCheck sections (.two id id' fun p j => some (notifyVerdicts m p j)) :=
  honestCheck_two.mpr (.inl ⟨h, h'⟩)

/-- None of the verdicts is that something is fine. -/
def NoneOk (verdicts : List Verdict) : Prop := ∀ v ∈ verdicts, v.2 ≠ .ok

theorem noneOk_append {a b : List Verdict} : NoneOk (a ++ b) ↔ NoneOk a ∧ NoneOk b :=
  List.forall_mem_append

theorem noneOk_ite {c : Prop} [Decidable c] {message : String} {status : Check} :
    NoneOk (if c then [(message, status)] else []) ↔ (c → status ≠ .ok) := by
  by_cases h : c <;> simp [NoneOk, h]

theorem noneOk_sharedDirFindings (shown fleet : String) : NoneOk (sharedDirFindings shown fleet) := by
  intro v hv
  obtain ⟨entry, -, hentry⟩ := List.mem_filterMap.mp hv
  dsimp only at hentry
  split at hentry
  · cases hentry
  · rw [← Option.some.inj hentry]
    dsimp only
    split <;> exact nofun

theorem noneOk_invariantFindings (shown fleet : String) :
    NoneOk (unitInvariantFindings shown fleet) := by
  simp only [unitInvariantFindings, noneOk_append, noneOk_ite, noneOk_sharedDirFindings, ne_eq,
    reduceCtorEq, not_false_eq_true, implies_true, and_self]

theorem honest_invariants (h : Answered sections id) : HonestCheck sections
    (.two id id' fun p f => some (invariantVerdicts p f)) ↔
      Answered sections id' ∨ unitInvariantFindings (bodyOf (sections.lookup id)) "" ≠ [] := by
  rw [honestCheck_two]
  by_cases hfleet : Answered sections id'
  · simp [h, hfleet]
  · have hempty : bodyOf none = "" := rfl
    simp only [hfleet, and_false, false_or, lookup_of_not_answered hfleet, Option.some_inj,
      forall_eq', invariantVerdicts, hempty]
    split
    · simp [*]
    · rename_i hne
      exact iff_of_true (noneOk_invariantFindings _ _) hne

theorem run_leaks (unit : String) : UnitCheck.run sections (.one (sectionId unit "journal")
    (leakVerdicts m)) ≠ none ↔ ¬ ScanPanics m sections unit := by
  simp [UnitCheck.run, leakVerdicts, ScanPanics, answer]

theorem run_one (verdicts : Option Section → List Verdict) :
    UnitCheck.run sections (.one id fun s => some (verdicts s)) ≠ none := nofun

theorem run_two (verdicts : Option Section → Option Section → List Verdict) :
    UnitCheck.run sections (.two id id' fun s s' => some (verdicts s s')) ≠ none := nofun

/-- The reports on a unit and on what is audited after it. -/
theorem honest_unit (service unit : String) (rest : List UnitCheck) :
    Honest sections (runChecks sections (checkUnit m service unit ++ rest)).1 ↔
      Grounded m sections unit ∧
        (¬ ScanPanics m sections unit → Honest sections (runChecks sections rest).1) := by
  simp only [checkUnit, List.cons_append, List.nil_append, honest_runChecks_cons, run_one, run_two,
    run_leaks, honest_state, honest_socket, honest_argv, honest_imports, honest_user, honest_paths,
    honest_store, honest_leaks, honest_ports, ne_eq, not_false_eq_true, forall_const, true_and]
  constructor
  · rintro ⟨hprops, hfile, hpaths, hjournal, hrest⟩
    refine ⟨⟨hprops, hfile, hpaths, fun hscan => ?_⟩, fun hscan => (hrest hscan).2.2⟩
    exact ⟨hjournal, (honest_invariants hprops).mp (hrest hscan).2.1⟩
  · rintro ⟨⟨hprops, hfile, hpaths, hlate⟩, hafter⟩
    have hjournal : Answered sections (sectionId unit "journal") := by
      by_contra hnone
      refine hnone (hlate fun hpanic => ?_).1
      rw [ScanPanics, answer, lookup_of_not_answered hnone] at hpanic
      exact absurd ((journalLeaks_empty m).symm.trans hpanic) nofun
    refine ⟨hprops, hfile, hpaths, hjournal, fun hscan => ⟨honest_notify hprops hjournal,
      (honest_invariants hprops).mpr (hlate hscan).2, hafter hscan⟩⟩

theorem honest_iff (units : List (String × String)) :
    Honest sections (runChecks sections (units.flatMap fun p => checkUnit m p.1 p.2)).1 ↔
      NoGuess m sections units := by
  induction units with
  | nil => simp [runChecks, Honest, NoGuess]
  | cons p units ih => rw [List.flatMap_cons, honest_unit, ih, NoGuess]

end Guesses

section Failures
variable {m : CaseMapping} {sections : Sections}

def NoFail (sections : Sections) (c : UnitCheck) : Prop :=
  ∃ verdicts, c.run sections = some verdicts ∧ ∀ v ∈ verdicts, v.2 ≠ .fail

theorem noFail_one {id : String} {verdicts : Option Section → List Verdict} :
    NoFail sections (.one id fun s => some (verdicts s)) ↔
      ∀ v ∈ verdicts (sections.lookup id), v.2 ≠ .fail := by
  simp [NoFail, UnitCheck.run]

theorem noFail_two {id id' : String} {verdicts : Option Section → Option Section → List Verdict} :
    NoFail sections (.two id id' fun s s' => some (verdicts s s')) ↔
      ∀ v ∈ verdicts (sections.lookup id) (sections.lookup id'), v.2 ≠ .fail := by
  simp [NoFail, UnitCheck.run]

theorem noFail_leaks {id : String} : NoFail sections (.one id (leakVerdicts m)) ↔
    journalLeaks m (bodyOf (sections.lookup id)) = some [] := by
  cases h : journalLeaks m (bodyOf (sections.lookup id)) with
  | none => simp [NoFail, UnitCheck.run, leakVerdicts, h]
  | some leaks =>
    by_cases hleaks : leaks = [] <;> simp [NoFail, UnitCheck.run, leakVerdicts, h, hleaks]

theorem noFail_state (unit : String) (s : Option Section) :
    ∀ v ∈ stateVerdicts unit s, v.2 ≠ .fail := by
  simp only [stateVerdicts, List.mem_singleton, forall_eq]
  split <;> nofun

theorem noFail_socket (service : String) (load state : Option Section) :
    ∀ v ∈ socketVerdicts service load state, v.2 ≠ .fail := by
  unfold socketVerdicts
  dsimp only
  split
  · simp only [List.mem_singleton, forall_eq]
    split <;> nofun
  · simp

theorem noFail_user (s : Option Section) : ∀ v ∈ userVerdicts s, v.2 ≠ .fail := by
  unfold userVerdicts
  intro v hv
  rcases List.mem_append.mp hv with hv | hv <;> split at hv <;> simp_all

theorem noFail_store (s : Option Section) : ∀ v ∈ storeVerdicts s, v.2 ≠ .fail := by
  unfold storeVerdicts
  split <;> simp

theorem noFail_argv (s : Option Section) :
    (∀ v ∈ argvVerdicts m s, v.2 ≠ .fail) ↔ hasArgvSecret m (bodyOf s) = false := by
  unfold argvVerdicts
  split <;> simp_all

theorem noFail_paths (s : Option Section) :
    (∀ v ∈ pathVerdicts s, v.2 ≠ .fail) ↔ missingPaths (bodyOf s) = [] := by
  unfold pathVerdicts
  by_cases h : missingPaths (bodyOf s) = []
  · simp [h]
  · obtain ⟨path, hpath⟩ := List.exists_mem_of_ne_nil _ h
    simp only [h, if_false, List.forall_mem_map, ne_eq, not_true_eq_false, imp_false]
    exact iff_of_false (fun hall => hall path hpath) (fun hfalse => hfalse)

theorem noFail_findings {findings : List Verdict} (message : String) :
    (∀ v ∈ (if findings = [] then [(message, Check.ok)] else findings), v.2 ≠ .fail) ↔
      ∀ v ∈ findings, v.2 ≠ .fail := by
  by_cases h : findings = [] <;> simp [h]

/-- A unit does not end the audit. -/
theorem noFail_unit (service unit : String) :
    (∀ c ∈ checkUnit m service unit, NoFail sections c) ↔
      ¬ (ScanPanics m sections unit ∨ FailFinding m sections unit) := by
  have hports : ∀ s : Option Section, ∀ v ∈ portVerdicts s, v.2 ≠ .fail := by
    simp [portVerdicts]
  have himports : ∀ s : Option Section, ∀ v ∈ importVerdicts s, v.2 ≠ .fail := by
    simp [importVerdicts]
  simp only [checkUnit, List.mem_cons, List.not_mem_nil, or_false, forall_eq_or_imp, forall_eq,
    noFail_one, noFail_two, noFail_leaks, noFail_argv, noFail_paths, notifyVerdicts,
    invariantVerdicts, noFail_findings]
  have hscan : journalLeaks m (bodyOf (sections.lookup (sectionId unit "journal"))) = some [] ↔
      ¬ ScanPanics m sections unit ∧
        ¬ ∃ leaks, journalLeaks m (bodyOf (answer sections unit "journal")) = some leaks ∧
          leaks ≠ [] := by
    unfold ScanPanics answer
    cases journalLeaks m (bodyOf (sections.lookup (sectionId unit "journal"))) <;> simp
  rw [hscan]
  unfold FailFinding answer
  simp only [ne_eq, not_or, not_exists, not_and, not_not, Bool.not_eq_true]
  constructor
  · rintro ⟨-, -, hargv, -, -, hpaths, -, ⟨hpanic, hleaks⟩, hnotify, hinvariants, -⟩
    exact ⟨hpanic, hargv, hpaths, hleaks, hnotify, hinvariants⟩
  · rintro ⟨hpanic, hargv, hpaths, hleaks, hnotify, hinvariants⟩
    exact ⟨noFail_state _ _, noFail_socket _ _ _, hargv, himports _, noFail_user _, hpaths,
      noFail_store _, ⟨hpanic, hleaks⟩, hnotify, hinvariants, hports _⟩

theorem clean_iff_not_stopped {units : List (String × String)} :
    (auditUnits m sections units).ending = .clean ↔ ¬ Stopped m sections units := by
  rw [clean_iff, Stopped]
  simp only [not_exists, not_and]
  exact forall₂_congr fun p _ => noFail_unit p.1 p.2

end Failures

/-- The credential store is read under an id that no batch asks for. -/
theorem PartialAnswers.store_unanswered {journalLines : Nat} {units : List (String × String)}
    (answers : PartialAnswers journalLines units) : ¬ Answered answers.sections "credstore" := by
  intro h
  obtain ⟨entry, hentry, hid⟩ := List.mem_map.mp (Assoc.mem_keys_iff_lookup.mpr h)
  exact credstore_not_asked (hid ▸ answers.asked entry hentry)

/-- An unanswered question stays out of the verdicts exactly where nothing is audited, or where
every unit that is reached has its answers and some finding keeps the audit from its clean end. -/
theorem only_answers_count_iff (m : CaseMapping) (journalLines : Nat) (units : List (String × String))
    (answers : PartialAnswers journalLines units) (host : String) (code : Option Int)
    (stderr : String) :
    OnlyAnswersCount m answers.sections units (check m answers.sections host code stderr units) ↔
      units = [] ∨ code = some 255 ∨ answers.sections = [] ∨
        (NoGuess m answers.sections units ∧ Stopped m answers.sections units) := by
  have hquiet : ∀ ending : Ending, ending ≠ .clean →
      OnlyAnswersCount m answers.sections units ⟨[], ending⟩ :=
    fun ending h => ⟨fun r hr => absurd hr List.not_mem_nil, fun hclean => absurd hclean h⟩
  by_cases hunits : units = []
  · simp only [check, hunits, if_true, true_or, iff_true]
    exact hunits ▸ hquiet .noService nofun
  by_cases hcode : code = some 255
  · simp only [check, hunits, finishBatch, hcode, if_true, if_false, true_or, or_true, iff_true]
    exact hquiet _ nofun
  by_cases hempty : answers.sections = []
  · simp only [check, hunits, finishBatch, hcode, if_false, hempty, if_true, true_or, or_true,
      iff_true]
    exact hempty ▸ hquiet _ nofun
  · simp only [check, hunits, finishBatch, hcode, hempty, if_false, false_or]
    refine and_congr (honest_iff units) ?_
    rw [clean_iff_not_stopped]
    constructor
    · intro h
      by_contra hstopped
      obtain ⟨p, hp⟩ := List.exists_mem_of_ne_nil units hunits
      have hstore : UnitCheck.one "credstore" (fun s => some (storeVerdicts s)) ∈
          checkUnit m p.1 p.2 := by simp [checkUnit]
      exact answers.store_unanswered
        (h hstopped p hp _ hstore "credstore" (List.mem_singleton_self _))
    · exact fun h hnot => absurd h hnot

theorem ascii_self (f : String → String) (s : String) (_ : ∀ c ∈ s.toList, c.toNat < 128) : f s = f s :=
  rfl

def asciiCase : CaseMapping :=
  ⟨Str.toAsciiLowercase, Str.toAsciiUppercase, ascii_self Str.toAsciiLowercase,
    ascii_self Str.toAsciiUppercase⟩

/-- Only the state of the unit came back. -/
def stateOnly : PartialAnswers 50 [("web", "web.service")] where
  sections := [("web.service_unit_state", ⟨0, "active"⟩)]
  asked := by
    intro entry hentry
    rw [List.mem_singleton.mp hentry]
    exact mem_ids (List.mem_singleton_self _) (by decide)

/-- Nine of ten questions are unanswered: the audit finds no secret and no missing path. -/
theorem audit_of_one_answer :
    ¬ OnlyAnswersCount asciiCase stateOnly.sections [("web", "web.service")]
      (check asciiCase stateOnly.sections "host" (some 0) "" [("web", "web.service")]) := by
  intro h
  have hrun : check asciiCase stateOnly.sections "host" (some 0) "" [("web", "web.service")] =
      auditUnits asciiCase stateOnly.sections [("web", "web.service")] := rfl
  rw [hrun] at h
  have hgrounded : NoGuess asciiCase stateOnly.sections [("web", "web.service")] :=
    (honest_iff _).mp h.1
  have hprops : ¬ Answered stateOnly.sections (sectionId "web.service" "props") := by
    unfold Answered
    decide
  exact hprops hgrounded.1.props

end Shellflow.ServiceCheck
