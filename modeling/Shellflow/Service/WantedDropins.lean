import Shellflow.Service.Staging

/-! The drop-ins of a copied service that a playbook has to install. The check compares the
destinations of the installs as they are written, not as a deploy resolves them. -/
namespace Shellflow.Dropins
open Staging Disk

/-- A manifest, and whether its unit takes the shared hardening. -/
structure UnitManifest extends ServiceManifest where
  hardening : Bool
deriving DecidableEq, Repr

inductive Problem where
  | dropin (path : String)
  | hardening (path : String)
deriving DecidableEq, Repr

namespace Problem

def path : Problem → String
  | .dropin path => path
  | .hardening path => path

def message : Problem → String
  | .dropin path => s!"the drop-in {path} is never installed"
  | .hardening path => s!"the shared hardening {path} is never installed"

end Problem

def hardeningName : String := "10-hardening.conf"

def dropinName : String := "20-shellflow.conf"

def unitStem (unit : String) : String := (Str.stripSuffix unit ".service").getD unit

/-- Where a drop-in of a unit lies on the target. -/
def dropinPath (unit file : String) : String := s!"/etc/systemd/system/{unit}.service.d/{file}"

/-- A line of the playbook with an install command that names the file by its suffix. -/
def mentions (text name : String) : Bool :=
  (Str.lines text).any fun line =>
    Str.contains line "install" && Str.contains line (".service.d/" ++ name)

section Check
variable (repo : Repo) (manifests : List UnitManifest) (text : String)

/-- The service of a directory below `services/`. -/
def serviceOf (dir : String) : String := ((Str.splitOnce dir "/").map Prod.fst).getD dir

def unitsOf (service : String) : List String :=
  (manifests.filter fun m => m.service == service).map fun m => unitStem m.unit

/-- Every drop-in that the repository holds for a unit, or the generated one. -/
def dropinFiles (service unit : String) : List String :=
  let files := (repo.names (Repo.servicePath service ++ pathParts (unit ++ ".service.d"))).foldl
    (fun files name => insertName name files) []
  if files = [] then [dropinName] else files

def wantsHardening (service unit : String) : Bool :=
  manifests.any fun m => m.service == service && unitStem m.unit == unit && m.hardening

def installed (facts : PlaybookFacts) (path : String) : Bool :=
  facts.installs.any fun install => install.2 == path

def neverInstalled (facts : PlaybookFacts) (unit file : String) : Bool :=
  !installed facts (dropinPath unit file) && !mentions text file

def unitProblems (facts : PlaybookFacts) (service unit : String) : List Problem :=
  ((dropinFiles repo service unit).filter (neverInstalled text facts unit)).map
      (fun file => .dropin (dropinPath unit file)) ++
    if wantsHardening manifests service unit && neverInstalled text facts unit hardeningName then
      [.hardening (dropinPath unit hardeningName)]
    else []

/-- The drop-ins and the shared hardening of every service that the playbook copies. -/
def checkDropins : Option (List Problem) :=
  (repo.playbookFacts text).map fun facts => facts.serviceDirs.flatMap fun dir =>
    (unitsOf manifests (serviceOf dir)).flatMap fun unit =>
      unitProblems repo manifests text facts (serviceOf dir) unit

end Check

section Exact
variable (repo : Repo) (manifests : List UnitManifest) (text : String)

/-- A file that the check looks for under a unit. -/
def LooksFor (plan : ExecutionPlan) (unit file : String) : Prop :=
  ∃ dir ∈ (Repo.factsOf repo text plan).serviceDirs, unit ∈ unitsOf manifests (serviceOf dir) ∧
    (file ∈ dropinFiles repo (serviceOf dir) unit ∨
      file = hardeningName ∧ wantsHardening manifests (serviceOf dir) unit = true)

/-- Some install writes the path once the variables of the playbook are substituted. -/
def Reached (plan : ExecutionPlan) (path : String) : Prop :=
  ∃ install ∈ installs plan, resolve (variablesOf text) install.2 = path

/-- Some install has the path as it is written. -/
def Written (plan : ExecutionPlan) (path : String) : Prop :=
  ∃ install ∈ installs plan, install.2 = path

variable {repo manifests text} {plan : ExecutionPlan}

theorem installed_iff {path : String} :
    installed (Repo.factsOf repo text plan) path = true ↔ Written plan path := by
  rw [installed, Repo.factsOf_installs, List.any_eq_true, Written]
  simp only [beq_iff_eq]

theorem neverInstalled_iff {unit file : String} :
    neverInstalled text (Repo.factsOf repo text plan) unit file = true ↔
      ¬ Written plan (dropinPath unit file) ∧ mentions text file = false := by
  rw [neverInstalled, Bool.and_eq_true, Bool.not_eq_true', Bool.not_eq_true',
    ← Bool.not_eq_true, installed_iff]

variable (repo manifests text) in
/-- No problem is about a file that some install of the playbook puts in its place. -/
def Fair : Prop :=
  ∀ plan problems, parseScript text = .ok plan → checkDropins repo manifests text = some problems →
    ∀ problem ∈ problems, ¬ Reached text plan problem.path

theorem path_of_unitProblem {facts : PlaybookFacts} {service unit path : String} :
    path ∈ (unitProblems repo manifests text facts service unit).map Problem.path ↔
      ∃ file, (file ∈ dropinFiles repo service unit ∨
        file = hardeningName ∧ wantsHardening manifests service unit = true) ∧
          neverInstalled text facts unit file = true ∧ path = dropinPath unit file := by
  rw [unitProblems, List.map_append, List.mem_append, List.map_map]
  constructor
  · intro h
    rcases h with h | h
    · obtain ⟨file, hfile, rfl⟩ := List.mem_map.mp h
      obtain ⟨hmem, hnever⟩ := List.mem_filter.mp hfile
      exact ⟨file, Or.inl hmem, hnever, rfl⟩
    · split at h
      · next hboth =>
        obtain ⟨hwants, hnever⟩ := Bool.and_eq_true_iff.mp hboth
        exact ⟨hardeningName, Or.inr ⟨rfl, hwants⟩, hnever, by simpa [Problem.path] using h⟩
      · simp at h
  · intro h
    obtain ⟨file, hfile | ⟨rfl, hwants⟩, hnever, rfl⟩ := h
    · exact Or.inl (List.mem_map.mpr ⟨file, List.mem_filter.mpr ⟨hfile, hnever⟩, rfl⟩)
    · rw [hwants, hnever]
      exact Or.inr (by simp [Problem.path])

/-- The problems are the files looked for that no install names and no line mentions. -/
theorem path_of_problem (hplan : parseScript text = .ok plan) :
    ∃ problems, checkDropins repo manifests text = some problems ∧ ∀ path,
      path ∈ problems.map Problem.path ↔ ∃ unit file, LooksFor repo manifests text plan unit file ∧
        neverInstalled text (Repo.factsOf repo text plan) unit file = true ∧
          path = dropinPath unit file := by
  refine ⟨_, by rw [checkDropins, Repo.playbookFacts_eq hplan, Option.map_some], fun path => ?_⟩
  rw [List.map_flatMap, List.mem_flatMap]
  simp only [List.map_flatMap, List.mem_flatMap, path_of_unitProblem]
  constructor
  · intro h
    obtain ⟨dir, hdir, unit, hunit, file, hfile, hnever⟩ := h
    exact ⟨unit, file, ⟨dir, hdir, hunit, hfile⟩, hnever⟩
  · intro h
    obtain ⟨unit, file, ⟨dir, hdir, hunit, hfile⟩, hnever⟩ := h
    exact ⟨dir, hdir, unit, hunit, file, hfile, hnever⟩

/-- Where an install names a file by a variable, only a line that mentions the file helps it. -/
theorem fair_iff (repo : Repo) (manifests : List UnitManifest) (text : String) :
    Fair repo manifests text ↔
      ∀ plan, parseScript text = .ok plan → ∀ unit file, LooksFor repo manifests text plan unit file →
        Reached text plan (dropinPath unit file) →
          Written plan (dropinPath unit file) ∨ mentions text file = true := by
  constructor
  · intro hfair plan hplan unit file hlooks hreached
    obtain ⟨problems, hproblems, hpaths⟩ := @path_of_problem repo manifests text plan hplan
    by_contra hneither
    obtain ⟨hwritten, hmentions⟩ := not_or.mp hneither
    have hnever := (@neverInstalled_iff repo text plan unit file).mpr
        ⟨hwritten, Bool.eq_false_iff.mpr hmentions⟩
    have hmem := (hpaths _).mpr ⟨unit, file, hlooks, hnever, rfl⟩
    obtain ⟨problem, hproblem, hpath⟩ := List.mem_map.mp hmem
    apply hfair plan problems hplan hproblems problem hproblem
    rw [hpath]
    exact hreached
  · intro hall plan problems hplan hproblems problem hproblem hreached
    obtain ⟨problems', hproblems', hpaths⟩ := @path_of_problem repo manifests text plan hplan
    rw [hproblems] at hproblems'
    cases hproblems'
    obtain ⟨unit, file, hlooks, hnever, hpath⟩ :=
      (hpaths _).mp (List.mem_map_of_mem hproblem)
    rw [hpath] at hreached
    obtain ⟨hwritten, hmentions⟩ := neverInstalled_iff.mp hnever
    rcases hall plan hplan unit file hlooks hreached with h | h
    · exact hwritten h
    · rw [hmentions] at h
      cases h

/-- A service with its own drop-in. -/
def appRepo : Repo := Repo.ofEntries
  [([], .dir), (["services"], .dir), (["services", "app"], .dir),
    (["services", "app", "app.service.d"], .dir),
    (["services", "app", "app.service.d", "x"], .file [])]
  (by simp [IsPart]) (by decide +kernel)

/-- The install names the unit by a variable. -/
def unitText : String :=
  "U=app.service\n# @copy services/app -> $WORKDIR/s @u@h\n" ++
  "# @install $WORKDIR/s/$U.d/x -> /etc/systemd/system/$U.d/x @u@h\n"

/-- A deploy installs the drop-in; the check says that it is never installed. -/
theorem dropin_installed_by_variable : ¬ ∀ repo manifests text, Fair repo manifests text := by
  intro hall
  have hvars : variablesOf unitText = [("U", "app.service")] := by decide +kernel
  have hmentions : mentions unitText "x" = false := by decide +kernel
  have hparsed : (parseScript unitText).toOption.map (fun plan => (installs plan, copies plan)) =
      some ([("$WORKDIR/s/$U.d/x", "/etc/systemd/system/$U.d/x")],
        [⟨"services/app", "$WORKDIR/s"⟩]) := by
    decide +kernel
  cases hparse : parseScript unitText with
  | error e =>
    rw [hparse] at hparsed
    cases hparsed
  | ok plan =>
    rw [hparse] at hparsed
    obtain ⟨hinstalls, hcopies⟩ := Prod.mk.inj (Option.some.inj hparsed)
    have hdirs : (Repo.factsOf appRepo unitText plan).serviceDirs = ["app"] := by
      rw [Repo.factsOf, hvars, hinstalls, hcopies]
      decide +kernel
    have hlooks : LooksFor appRepo [⟨⟨"app", "h", "app.service"⟩, false⟩] unitText plan "app" "x" := by
      refine ⟨"app", ?_, by decide +kernel, Or.inl (by decide +kernel)⟩
      rw [hdirs]
      exact List.mem_singleton_self _
    have hreached : Reached unitText plan (dropinPath "app" "x") := by
      refine ⟨("$WORKDIR/s/$U.d/x", "/etc/systemd/system/$U.d/x"), ?_, ?_⟩
      · rw [hinstalls]
        exact List.mem_singleton_self _
      · rw [hvars]
        decide +kernel
    obtain ⟨problems, hproblems, hpaths⟩ := path_of_problem hparse
    have hnever : neverInstalled unitText (Repo.factsOf appRepo unitText plan) "app" "x" = true := by
      refine neverInstalled_iff.mpr ⟨fun hwritten => ?_, hmentions⟩
      obtain ⟨install, hinstall, hpath⟩ := hwritten
      rw [hinstalls] at hinstall
      rw [List.mem_singleton.mp hinstall] at hpath
      exact absurd hpath (by decide +kernel)
    obtain ⟨problem, hproblem, hpath⟩ :=
      List.mem_map.mp ((hpaths _).mpr ⟨"app", "x", hlooks, hnever, rfl⟩)
    apply hall appRepo _ unitText plan problems hparse hproblems problem hproblem
    rw [hpath]
    exact hreached

end Exact

end Shellflow.Dropins
