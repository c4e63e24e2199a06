import Mathlib.Logic.Function.Basic
import Shellflow.Service.UnitRender
import Shellflow.Service.WantedDropins

/-! The generator of the drop-ins against their check: both render the manifest, but each derives the
path of the drop-in in its own way. -/
namespace Shellflow.UnitCmd
open UnitRender
open Dropins (unitStem dropinName)

/-- The manifest with the sealed file it names. -/
structure SealedManifest extends UnitManifest where
  secretFile : Option String
deriving DecidableEq, Repr

inductive Content where
  | text (t : String)
  | other
deriving DecidableEq, Repr

/-- A repository: the directories below `services/` with the names of their files, and what stands at
each path. -/
structure Repo where
  root : String
  listing : Option (List (String × Option (List String)))
  files : String → Option Content

namespace Repo
variable (repo : Repo) (service unit : String)

/-- `read_to_string`: a file that is no text cannot be read. -/
def readToString (path : String) : Option String :=
  match repo.files path with
  | some (.text t) => some t
  | _ => none

def join (path : String) : String := UnitRender.joinPath repo.root path

def serviceDir : String := UnitRender.joinPath (repo.join "services") service

def manifestPath : String := repo.serviceDir service ++ "/" ++ unit ++ ".service.toml"

def dropinDir : String := repo.serviceDir service ++ "/" ++ unit ++ ".service.d"

def dropinPath : String := repo.dropinDir service unit ++ "/" ++ dropinName

/-- The file beside the drop-in that is renamed onto it. -/
def temporaryPath : String :=
  repo.dropinDir service unit ++ "/." ++ dropinName ++ ".shellflow-new"

def put (path : String) (content : Option Content) : Repo :=
  { repo with files := Function.update repo.files path content }

@[simp] theorem put_root (path : String) (content : Option Content) :
    (repo.put path content).root = repo.root := rfl

theorem put_self (path : String) (content : Option Content) :
    (repo.put path content).files path = content :=
  Function.update_self ..

theorem put_of_ne {path path' : String} (h : path' ≠ path) (content : Option Content) :
    (repo.put path content).files path' = repo.files path' :=
  Function.update_of_ne h ..

end Repo

section Load
variable (toml : String → Except String TomlDoc)

def SealedManifest.parse (service text : String) : Except ManifestError SealedManifest := do
  let manifest ← UnitManifest.parse toml service text
  let doc ← (toml text).mapError fun err => ManifestError.mk s!"invalid TOML: {err}"
  let secretFile ← optionalStr doc "secret_file" service
  .ok ⟨manifest, secretFile⟩

/-- The name of the file decides the unit. -/
def SealedManifest.load (repo : Repo) (service unit : String) :
    Except ManifestError SealedManifest :=
  match repo.readToString (repo.manifestPath service unit) with
  | none => manifestError s!"cannot read `{repo.manifestPath service unit}`"
  | some text => do
    let manifest ← SealedManifest.parse toml service text
    .ok { manifest with unit := unit }

def loadUnit (repo : Repo) (service : String) (manifests : List (String × SealedManifest))
    (file : String) : Except ManifestError (List (String × SealedManifest)) :=
  match manifestUnit file with
  | none => .ok manifests
  | some unit => do
    let manifest ← SealedManifest.load toml repo service unit
    .ok (Assoc.put manifestLe (service ++ "/" ++ unit, manifest) manifests)

def loadService (repo : Repo) (manifests : List (String × SealedManifest))
    (dir : String × Option (List String)) : Except ManifestError (List (String × SealedManifest)) :=
  match dir.2 with
  | none => .ok manifests
  | some files => files.foldlM (loadUnit toml repo dir.1) manifests

def loadAll (repo : Repo) : Except ManifestError (List (String × SealedManifest)) :=
  match repo.listing with
  | none => .ok []
  | some dirs => dirs.foldlM (loadService toml repo) []

end Load

/-- Where the sealed file of a manifest lies. -/
def SealedManifest.credentialFile (m : SealedManifest) : Except ManifestError String :=
  match m.secretFile with
  | some file => .ok (Str.replace file "\x7bhost\x7d" m.host)
  | none => manifestError s!"the manifest of `{m.service}` declares no `secret_file`"

section Commands
variable (toml : String → Except String TomlDoc)
  (credentialKeySet : String → Option String → Except String (List String))

/-- The keys that the generator reads; a manifest without a sealed file has none. -/
def sealedKeys (repo : Repo) (identity : Option String) (m : SealedManifest) :
    Except String (List String) :=
  if m.secretFile.isSome then
    match m.credentialFile with
    | .error err => .error err.message
    | .ok file =>
      (credentialKeySet (repo.join file) identity).mapError fun err =>
        s!"cannot read the credential keys of `{repo.join file}`: {err}"
  else .ok []

structure RenderArgs where
  service : String
  unit : String
  identity : Option String
  stdout : Bool
  check : Bool

/-- How the write of a drop-in fails, and what a failed write leaves beside it. -/
structure WriteFaults where
  mkdir : Option String
  write : Option String
  rename : Option String
  leftover : Option Content

def writeDropin (faults : WriteFaults) (repo : Repo) (service unit text : String) :
    Repo × Except String Int :=
  let target := repo.dropinPath service unit
  let tmp := repo.temporaryPath service unit
  match faults.mkdir, faults.write, faults.rename with
  | some err, _, _ => (repo, .error s!"cannot create `{repo.dropinDir service unit}`: {err}")
  | none, some err, _ =>
    (repo.put tmp faults.leftover, .error s!"cannot write `{tmp}`: {err}")
  | none, none, some err =>
    (repo.put tmp (some (.text text)), .error s!"cannot install `{target}`: {err}")
  | none, none, none => ((repo.put tmp none).put target (some (.text text)), .ok 0)

/-- `unit render`, to the place of the drop-in in the repository. -/
def renderUnit (args : RenderArgs) (faults : WriteFaults) (repo : Repo) : Repo × Except String Int :=
  match SealedManifest.load toml repo args.service args.unit with
  | .error err => (repo, .error err.message)
  | .ok m =>
    match sealedKeys credentialKeySet repo args.identity m with
    | .error err => (repo, .error err)
    | .ok keys =>
      let text := (UnitRender.render m.toUnitManifest keys).text
      if args.stdout then (repo, .ok 0)
      else if args.check then
        let current := (repo.readToString (repo.dropinPath args.service args.unit)).getD ""
        (repo, .ok (if current = text then 0 else 1))
      else writeDropin faults repo args.service args.unit text

structure Problem where
  location : String
  message : String
deriving DecidableEq, Repr

structure Report where
  problems : List Problem
  skipped : List Problem
deriving DecidableEq, Repr

def Report.clean : Report := ⟨[], []⟩

/-- The keys that the check compares with: an explicit list wins. -/
def checkedKeys (repo : Repo) (m : SealedManifest) (path : String) :
    Except Problem (List String) :=
  if !m.credentials.isEmpty then .ok m.credentials
  else
    match m.secretFile with
    | none => .ok []
    | some secret =>
      let file := repo.join (Str.replace secret "\x7bhost\x7d" m.host)
      (credentialKeySet file none).mapError fun err => ⟨path, "the drop-in was not verified: the " ++
        s!"credential keys of `{file}` cannot be read offline ({err})"⟩

def checkDropin (repo : Repo) (m : SealedManifest) : Report :=
  let path := repo.dropinPath m.service (unitStem m.unit)
  match repo.files path with
  | none =>
    ⟨[⟨path, "the generated drop-in is missing: run `shellflow unit render`"⟩], []⟩
  | some content =>
    match checkedKeys credentialKeySet repo m path with
    | .error skipped => ⟨[], [skipped]⟩
    | .ok keys =>
      match content with
      | .other => ⟨[⟨path, "the generated drop-in cannot be read"⟩], []⟩
      | .text current =>
        if current ≠ (UnitRender.render m.toUnitManifest keys).text then
          ⟨[⟨path, "the generated drop-in is out of date: run `shellflow unit render`"⟩], []⟩
        else .clean

end Commands

section Found
variable {toml : String → Except String TomlDoc} {repo : Repo} {service unit : String}
  {m : SealedManifest}

theorem service_parse (toml : String → Except String TomlDoc) (service text : String) :
    (UnitManifest.parse toml service text).map (fun m => m.service) =
      (UnitManifest.parse toml service text).map fun _ => service := by
  simp only [UnitManifest.parse, map_bind]
  rfl

/-- A manifest that is loaded has the names it is loaded by. -/
theorem names_of_load (h : SealedManifest.load toml repo service unit = .ok m) :
    m.service = service ∧ m.unit = unit := by
  rw [SealedManifest.load] at h
  split at h
  · cases h
  next text _ =>
    obtain ⟨found, hfound, h⟩ := Fallible.bind_eq_ok.mp h
    cases h
    obtain ⟨um, hum, hfound⟩ := Fallible.bind_eq_ok.mp hfound
    obtain ⟨doc, -, hfound⟩ := Fallible.bind_eq_ok.mp hfound
    obtain ⟨secretFile, -, hfound⟩ := Fallible.bind_eq_ok.mp hfound
    cases hfound
    have hservice := service_parse toml service text
    rw [hum] at hservice
    exact ⟨by injection hservice, rfl⟩

/-- Each of the manifests can be loaded again by its own names. -/
def Loaded (toml : String → Except String TomlDoc) (repo : Repo)
    (manifests : List (String × SealedManifest)) : Prop :=
  ∀ e ∈ manifests, SealedManifest.load toml repo e.2.service e.2.unit = .ok e.2

theorem loaded_loadUnit {manifests manifests' : List (String × SealedManifest)} {file : String}
    (hloaded : Loaded toml repo manifests)
    (h : loadUnit toml repo service manifests file = .ok manifests') :
    Loaded toml repo manifests' := by
  rw [loadUnit] at h
  split at h
  · cases h
    exact hloaded
  · obtain ⟨m, hm, h⟩ := Fallible.bind_eq_ok.mp h
    cases h
    intro e he
    rcases Assoc.mem_put.mp he with rfl | ⟨hold, -⟩
    · obtain ⟨hservice, hunit⟩ := names_of_load hm
      dsimp only
      rw [hservice, hunit]
      exact hm
    · exact hloaded e hold

theorem loaded_loadAll {manifests : List (String × SealedManifest)}
    (h : loadAll toml repo = .ok manifests) : Loaded toml repo manifests := by
  rw [loadAll] at h
  split at h
  · cases h
    exact fun e he => absurd he List.not_mem_nil
  · refine Fallible.foldlM_invariant (Loaded toml repo) (fun before dir after hbefore hdir => ?_)
      (fun e he => absurd he List.not_mem_nil) h
    rw [loadService] at hdir
    split at hdir
    · cases hdir
      exact hbefore
    · exact Fallible.foldlM_invariant (Loaded toml repo)
        (fun _ _ _ hloaded hunit => loaded_loadUnit hloaded hunit) hbefore hdir

end Found

section Paths
variable {repo : Repo} {service unit : String}

/-- The last character tells the files of a service apart. -/
theorem ne_of_last {a b s t : String} {c d : Char} (hs : s.toList.getLast? = some c)
    (ht : t.toList.getLast? = some d) (hne : c ≠ d) : a ++ s ≠ b ++ t := by
  intro heq
  have hlast := congrArg (fun x => x.toList.getLast?) heq
  rw [String.toList_append, String.toList_append, List.getLast?_append, List.getLast?_append, hs, ht]
    at hlast
  exact hne (Option.some.inj hlast)

theorem manifestPath_ne_dropinPath (service unit service' unit' : String) :
    repo.manifestPath service unit ≠ repo.dropinPath service' unit' :=
  ne_of_last (c := 'l') (d := 'f') rfl rfl (by decide)

theorem manifestPath_ne_temporaryPath (service unit service' unit' : String) :
    repo.manifestPath service unit ≠ repo.temporaryPath service' unit' :=
  ne_of_last (c := 'l') (d := 'w') rfl rfl (by decide)

theorem dropinPath_ne_temporaryPath (service unit service' unit' : String) :
    repo.dropinPath service unit ≠ repo.temporaryPath service' unit' :=
  ne_of_last (c := 'f') (d := 'w') rfl rfl (by decide)

theorem unitStem_of_none (h : Str.stripSuffix unit ".service" = none) : unitStem unit = unit := by
  rw [unitStem, h]
  rfl

/-- A unit whose name ends in `.service` is checked at another path. -/
theorem dropinPath_stem_ne {rest : String} (h : Str.stripSuffix unit ".service" = some rest) :
    repo.dropinPath service (unitStem unit) ≠ repo.dropinPath service unit := by
  intro heq
  have hlen := congrArg String.length heq
  rw [unitStem, h, Str.stripSuffix_eq_some h] at hlen
  simp only [Repo.dropinPath, Repo.dropinDir, String.length_append, Option.getD_some] at hlen
  have hsuffix : ".service".length = 8 := rfl
  omega

end Paths

section Agree
variable (toml : String → Except String TomlDoc)
  (credentialKeySet : String → Option String → Except String (List String))

def plainArgs (m : SealedManifest) (identity : Option String) : RenderArgs :=
  ⟨m.service, m.unit, identity, false, false⟩

def checkArgs (m : SealedManifest) (identity : Option String) : RenderArgs :=
  ⟨m.service, m.unit, identity, false, true⟩

/-- The generator and the check agree about the drop-in of a manifest. -/
structure Agrees (repo : Repo) (m : SealedManifest) (identity : Option String) : Prop where
  verified : ∀ faults repo',
    renderUnit toml credentialKeySet (plainArgs m identity) faults repo = (repo', .ok 0) →
    (checkDropin credentialKeySet repo' m).problems = [] ∧
      ∀ faults', renderUnit toml credentialKeySet (checkArgs m identity) faults' repo' =
        (repo', .ok 0)
  unchanged : checkDropin credentialKeySet repo m = .clean → ∀ faults,
    (renderUnit toml credentialKeySet (plainArgs m identity) faults repo).1.files
      (repo.dropinPath m.service m.unit) = repo.files (repo.dropinPath m.service m.unit)

variable {toml credentialKeySet} {repo : Repo} {m : SealedManifest} {identity : Option String}
  {keys : List String}

/-- The drop-in that the manifest generates with these keys. -/
def dropinText (m : SealedManifest) (keys : List String) : String :=
  (UnitRender.render m.toUnitManifest keys).text

theorem dropinText_congr {keys' : List String} (h : m.selected keys = m.selected keys') :
    dropinText m keys = dropinText m keys' := by
  simp only [dropinText, UnitRender.render, h]

/-- The check compares with the text that is generated, if it can read the keys where it needs them. -/
theorem checkedKeys_of_sealedKeys
    (hsame : ∀ path, credentialKeySet path identity = credentialKeySet path none)
    (h : sealedKeys credentialKeySet repo identity m = .ok keys) (path : String) :
    ∃ keys', checkedKeys credentialKeySet repo m path = .ok keys' ∧
      dropinText m keys' = dropinText m keys := by
  rw [checkedKeys]
  by_cases hlist : m.credentials.isEmpty = true
  · rw [if_neg (by rw [hlist]; decide)]
    rw [sealedKeys] at h
    cases hsecret : m.secretFile with
    | none =>
      rw [hsecret, if_neg (by decide)] at h
      cases h
      exact ⟨[], rfl, rfl⟩
    | some secret =>
      rw [hsecret, if_pos (by rfl), SealedManifest.credentialFile, hsecret] at h
      dsimp only at h ⊢
      rw [hsame] at h
      cases hkeys : credentialKeySet
          (repo.join (Str.replace secret "{host}" m.host)) none with
      | error err =>
        rw [hkeys] at h
        cases h
      | ok found =>
        rw [hkeys] at h
        cases h
        exact ⟨keys, rfl, rfl⟩
  · rw [Bool.eq_false_iff.mpr hlist, if_pos (by rfl)]
    refine ⟨m.credentials, rfl, dropinText_congr ?_⟩
    rw [UnitManifest.selected, UnitManifest.selected, if_neg hlist, if_neg hlist]

theorem checkDropin_text {path : String} (hpath : repo.dropinPath m.service (unitStem m.unit) = path)
    (hkeys : checkedKeys credentialKeySet repo m path = .ok keys) :
    ((checkDropin credentialKeySet repo m).problems = [] ↔
      repo.files path = some (.text (dropinText m keys))) ∧
    (repo.files path = some (.text (dropinText m keys)) →
      checkDropin credentialKeySet repo m = .clean) := by
  have htext : (UnitRender.render m.toUnitManifest keys).text = dropinText m keys := rfl
  rw [checkDropin, hpath]
  cases hfile : repo.files path with
  | none => exact ⟨⟨nofun, nofun⟩, nofun⟩
  | some content =>
    dsimp only
    rw [hkeys]
    cases content with
    | other => exact ⟨⟨nofun, nofun⟩, nofun⟩
    | text current =>
      dsimp only
      rw [htext]
      by_cases hcurrent : current = dropinText m keys
      · rw [if_neg (not_not.mpr hcurrent), hcurrent]
        exact ⟨⟨fun _ => rfl, fun _ => rfl⟩, fun _ => rfl⟩
      · rw [if_pos hcurrent]
        refine ⟨⟨nofun, fun h => ?_⟩, fun h => ?_⟩
        · exact absurd (by injection Option.some.inj h) hcurrent
        · exact absurd (by injection Option.some.inj h) hcurrent

theorem renderUnit_error {faults : WriteFaults} {err : String}
    (hload : SealedManifest.load toml repo m.service m.unit = .ok m)
    (h : sealedKeys credentialKeySet repo identity m = .error err) :
    renderUnit toml credentialKeySet (plainArgs m identity) faults repo = (repo, .error err) := by
  rw [renderUnit, plainArgs]
  dsimp only
  rw [hload]
  dsimp only
  rw [h]

/-- A render that cannot read its keys changes nothing. -/
theorem agrees_of_error {err : String}
    (hload : SealedManifest.load toml repo m.service m.unit = .ok m)
    (h : sealedKeys credentialKeySet repo identity m = .error err) :
    Agrees toml credentialKeySet repo m identity := by
  constructor
  · intro faults repo' hrun
    rw [renderUnit_error hload h] at hrun
    cases hrun
  · intro _ faults
    rw [renderUnit_error hload h]

theorem renderUnit_plain {faults : WriteFaults}
    (hload : SealedManifest.load toml repo m.service m.unit = .ok m)
    (h : sealedKeys credentialKeySet repo identity m = .ok keys) :
    renderUnit toml credentialKeySet (plainArgs m identity) faults repo =
      writeDropin faults repo m.service m.unit (dropinText m keys) := by
  rw [renderUnit, plainArgs]
  dsimp only
  rw [hload]
  dsimp only
  rw [h]
  rfl

theorem renderUnit_check {faults : WriteFaults}
    (hload : SealedManifest.load toml repo m.service m.unit = .ok m)
    (h : sealedKeys credentialKeySet repo identity m = .ok keys)
    (hfile : repo.files (repo.dropinPath m.service m.unit) = some (.text (dropinText m keys))) :
    renderUnit toml credentialKeySet (checkArgs m identity) faults repo = (repo, .ok 0) := by
  rw [renderUnit, checkArgs]
  dsimp only
  rw [hload]
  dsimp only
  rw [h]
  dsimp only
  rw [if_neg (by decide), if_pos (by rfl), Repo.readToString, hfile]
  exact congrArg (fun n => (repo, Except.ok n)) (if_pos rfl)

theorem writeDropin_ok {faults : WriteFaults} {service unit text : String} {repo' : Repo}
    (h : writeDropin faults repo service unit text = (repo', .ok 0)) :
    repo' = (repo.put (repo.temporaryPath service unit) none).put (repo.dropinPath service unit)
      (some (.text text)) := by
  rw [writeDropin] at h
  split at h
  · cases h
  · cases h
  · cases h
  · exact (Prod.mk.inj h).1.symm

/-- The drop-in keeps what it holds or gets the text. -/
theorem writeDropin_target (faults : WriteFaults) (service unit text : String) :
    (writeDropin faults repo service unit text).1.files (repo.dropinPath service unit) =
        repo.files (repo.dropinPath service unit) ∨
      (writeDropin faults repo service unit text).1.files (repo.dropinPath service unit) =
        some (.text text) := by
  have hne := @dropinPath_ne_temporaryPath repo service unit service unit
  rw [writeDropin]
  generalize repo.dropinPath service unit = target at hne ⊢
  generalize repo.temporaryPath service unit = tmp at hne ⊢
  cases faults.mkdir with
  | some err => exact .inl rfl
  | none =>
    cases faults.write with
    | some err => exact .inl (repo.put_of_ne hne _)
    | none =>
      cases faults.rename with
      | some err => exact .inl (repo.put_of_ne hne _)
      | none => exact .inr (Repo.put_self ..)

/-! The manifests and the keys depend on the root and on the files that are no drop-ins. -/

variable {repo' : Repo}

theorem join_congr (hroot : repo'.root = repo.root) (path : String) :
    repo'.join path = repo.join path := by
  rw [Repo.join, Repo.join, hroot]

theorem dropinPath_congr (hroot : repo'.root = repo.root) (service unit : String) :
    repo'.dropinPath service unit = repo.dropinPath service unit := by
  rw [Repo.dropinPath, Repo.dropinPath, Repo.dropinDir, Repo.dropinDir, Repo.serviceDir,
    Repo.serviceDir, join_congr hroot]

theorem load_congr (hroot : repo'.root = repo.root) {service unit : String}
    (h : repo'.files (repo.manifestPath service unit) =
      repo.files (repo.manifestPath service unit)) :
    SealedManifest.load toml repo' service unit = SealedManifest.load toml repo service unit := by
  have hpath : repo'.manifestPath service unit = repo.manifestPath service unit := by
    rw [Repo.manifestPath, Repo.manifestPath, Repo.serviceDir, Repo.serviceDir, join_congr hroot]
  have hread : repo'.readToString (repo.manifestPath service unit) =
      repo.readToString (repo.manifestPath service unit) := by
    rw [Repo.readToString, Repo.readToString, h]
  rw [SealedManifest.load, SealedManifest.load, hpath, hread]

theorem sealedKeys_congr (hroot : repo'.root = repo.root) :
    sealedKeys credentialKeySet repo' identity m = sealedKeys credentialKeySet repo identity m := by
  simp only [sealedKeys, join_congr hroot]

theorem checkedKeys_congr (hroot : repo'.root = repo.root) (path : String) :
    checkedKeys credentialKeySet repo' m path = checkedKeys credentialKeySet repo m path := by
  simp only [checkedKeys, join_congr hroot]

/-- The repository that a successful render leaves. -/
def written (repo : Repo) (m : SealedManifest) (text : String) : Repo :=
  (repo.put (repo.temporaryPath m.service m.unit) none).put (repo.dropinPath m.service m.unit)
    (some (.text text))

@[simp] theorem written_root (text : String) : (written repo m text).root = repo.root := rfl

theorem written_target (text : String) :
    (written repo m text).files (repo.dropinPath m.service m.unit) = some (.text text) :=
  Repo.put_self ..

theorem written_of_ne {path text : String} (htarget : path ≠ repo.dropinPath m.service m.unit)
    (htmp : path ≠ repo.temporaryPath m.service m.unit) :
    (written repo m text).files path = repo.files path :=
  (Repo.put_of_ne _ htarget _).trans (Repo.put_of_ne _ htmp _)

theorem load_written (hload : SealedManifest.load toml repo m.service m.unit = .ok m)
    (text : String) : SealedManifest.load toml (written repo m text) m.service m.unit = .ok m := by
  rw [← hload]
  apply load_congr (written_root text)
  exact written_of_ne (manifestPath_ne_dropinPath _ _ _ _) (manifestPath_ne_temporaryPath _ _ _ _)

/-- After the render, its own check passes, and the verification looks at its own path. -/
theorem after_render (hload : SealedManifest.load toml repo m.service m.unit = .ok m)
    (hsame : ∀ path, credentialKeySet path identity = credentialKeySet path none)
    (hkeys : sealedKeys credentialKeySet repo identity m = .ok keys) :
    ((checkDropin credentialKeySet (written repo m (dropinText m keys)) m).problems = [] ↔
      (written repo m (dropinText m keys)).files (repo.dropinPath m.service (unitStem m.unit)) =
        some (.text (dropinText m keys))) ∧
    ∀ faults, renderUnit toml credentialKeySet (checkArgs m identity) faults
      (written repo m (dropinText m keys)) = (written repo m (dropinText m keys), .ok 0) := by
  have hroot : (written repo m (dropinText m keys)).root = repo.root := written_root _
  obtain ⟨keys', hchecked, htext⟩ := checkedKeys_of_sealedKeys hsame hkeys
    (repo.dropinPath m.service (unitStem m.unit))
  constructor
  · rw [← htext]
    apply (checkDropin_text (dropinPath_congr _ _ _) _).1
    · rw [htext, hroot]
    · rw [htext, checkedKeys_congr hroot]
      exact hchecked
  · intro faults
    apply renderUnit_check (load_written hload _)
    · rw [sealedKeys_congr hroot]
      exact hkeys
    · rw [dropinPath_congr hroot]
      exact written_target _

/-- A unit whose name does not end in `.service` is written and checked at one path. -/
theorem agrees_of_stem (hload : SealedManifest.load toml repo m.service m.unit = .ok m)
    (hsame : ∀ path, credentialKeySet path identity = credentialKeySet path none)
    (hstem : unitStem m.unit = m.unit) : Agrees toml credentialKeySet repo m identity := by
  cases hkeys : sealedKeys credentialKeySet repo identity m with
  | error err => exact agrees_of_error hload hkeys
  | ok keys =>
    constructor
    · intro faults repo' hrun
      rw [renderUnit_plain hload hkeys] at hrun
      obtain rfl : repo' = written repo m (dropinText m keys) := writeDropin_ok hrun
      have hafter := after_render hload hsame hkeys
      refine ⟨hafter.1.mpr ?_, hafter.2⟩
      rw [hstem]
      exact written_target _
    · intro hclean faults
      obtain ⟨keys', hchecked, htext⟩ := checkedKeys_of_sealedKeys hsame hkeys
        (repo.dropinPath m.service (unitStem m.unit))
      have hfile := (checkDropin_text rfl hchecked).1.mp (congrArg Report.problems hclean)
      rw [htext, hstem] at hfile
      rw [renderUnit_plain hload hkeys]
      rcases @writeDropin_target repo faults m.service m.unit (dropinText m keys) with
        hkept | hnew
      · exact hkept
      · rw [hnew, hfile]

/-- With two paths, the drop-in that is checked is missing after a first render. -/
theorem not_agrees_of_stem_ne {rest : String}
    (hload : SealedManifest.load toml repo m.service m.unit = .ok m)
    (hsame : ∀ path, credentialKeySet path identity = credentialKeySet path none)
    (hkeys : sealedKeys credentialKeySet repo identity m = .ok keys)
    (hsuffix : Str.stripSuffix m.unit ".service" = some rest)
    (hmissing : repo.files (repo.dropinPath m.service (unitStem m.unit)) = none) :
    ¬Agrees toml credentialKeySet repo m identity := by
  intro hagrees
  have hrun : renderUnit toml credentialKeySet (plainArgs m identity) ⟨none, none, none, none⟩
      repo = (written repo m (dropinText m keys), .ok 0) :=
    renderUnit_plain hload hkeys
  have hfile := (after_render hload hsame hkeys).1.mp (hagrees.verified _ _ hrun).1
  rw [written_of_ne (dropinPath_stem_ne hsuffix) (dropinPath_ne_temporaryPath _ _ _ _), hmissing]
    at hfile
  cases hfile

theorem sealedKeys_error_iff :
    (∃ err, sealedKeys credentialKeySet repo identity m = .error err) ↔
      ∃ secret err, m.secretFile = some secret ∧
        credentialKeySet (repo.join (Str.replace secret "\x7bhost\x7d" m.host)) identity =
          .error err := by
  rw [sealedKeys, SealedManifest.credentialFile]
  cases m.secretFile with
  | none => exact ⟨nofun, nofun⟩
  | some secret =>
    rw [if_pos (by rfl)]
    dsimp only
    cases hread : credentialKeySet (repo.join (Str.replace secret "\x7bhost\x7d" m.host))
        identity with
    | error err => exact ⟨fun _ => ⟨secret, err, rfl, hread⟩, fun _ => ⟨_, rfl⟩⟩
    | ok keys =>
      refine ⟨nofun, fun h => ?_⟩
      obtain ⟨secret', err, hsecret, herr⟩ := h
      cases hsecret
      cases hread.symm.trans herr

/-- Two repositories that differ in drop-ins only. -/
structure SameButDropins (repo repo' : Repo) : Prop where
  root : repo'.root = repo.root
  listing : repo'.listing = repo.listing
  files : ∀ path, (∀ service unit, path ≠ repo.dropinPath service unit) →
    repo'.files path = repo.files path

/-- Whatever the drop-ins hold, the generator and the check agree about a manifest exactly if the name
of its unit does not end in `.service`, or its sealed file gives no keys. -/
theorem agrees_iff {manifests : List (String × SealedManifest)} {key : String}
    (hall : loadAll toml repo = .ok manifests) (hm : (key, m) ∈ manifests)
    (hsame : ∀ path, credentialKeySet path identity = credentialKeySet path none) :
    (∀ repo', SameButDropins repo repo' → Agrees toml credentialKeySet repo' m identity) ↔
      Str.stripSuffix m.unit ".service" = none ∨
      ∃ secret err, m.secretFile = some secret ∧
        credentialKeySet (repo.join (Str.replace secret "\x7bhost\x7d" m.host)) identity =
          .error err := by
  have hloaded : SealedManifest.load toml repo m.service m.unit = .ok m :=
    loaded_loadAll hall (key, m) hm
  have hload : ∀ repo', SameButDropins repo repo' →
      SealedManifest.load toml repo' m.service m.unit = .ok m := fun repo' hsim => by
    rw [← hloaded]
    apply load_congr hsim.root
    exact hsim.files _ fun service unit => manifestPath_ne_dropinPath _ _ _ _
  rw [← sealedKeys_error_iff]
  constructor
  · intro hagrees
    cases hsuffix : Str.stripSuffix m.unit ".service" with
    | none => exact .inl rfl
    | some rest =>
      cases hkeys : sealedKeys credentialKeySet repo identity m with
      | error err => exact .inr ⟨err, rfl⟩
      | ok keys =>
        -- the repository whose drop-in is missing where the check looks
        have hsim : SameButDropins repo
            (repo.put (repo.dropinPath m.service (unitStem m.unit)) none) :=
          ⟨rfl, rfl, fun path hpath => Repo.put_of_ne _ (hpath _ _) _⟩
        have hread : sealedKeys credentialKeySet
            (repo.put (repo.dropinPath m.service (unitStem m.unit)) none) identity m = .ok keys := by
          rw [sealedKeys_congr hsim.root]
          exact hkeys
        refine absurd (hagrees _ hsim)
          (not_agrees_of_stem_ne (hload _ hsim) hsame hread hsuffix ?_)
        rw [dropinPath_congr hsim.root]
        exact Repo.put_self ..
  · rintro (hnone | ⟨err, hkeys⟩) repo' hsim
    · exact agrees_of_stem (hload repo' hsim) hsame (unitStem_of_none hnone)
    · apply agrees_of_error (hload repo' hsim)
      rw [sealedKeys_congr hsim.root]
      exact hkeys

end Agree

section OneService

def webDoc : TomlDoc := [("host", .str "api"), ("unit", .str "web")]

/-- A repository of one service with one manifest, and no drop-in. -/
def webRepo (file : String) : Repo where
  root := "/r"
  listing := some [("web", some [file])]
  files path := if path = "/r/services/web/" ++ file then some (.text "") else none

def webManifest (unit : String) : SealedManifest := ⟨⟨⟨"web", "api", unit⟩, none, [], []⟩, none⟩

theorem agrees_iff_web :
    (∀ repo', SameButDropins (webRepo "web.service.toml") repo' →
      Agrees (fun _ => .ok webDoc) (fun _ _ => .ok []) repo' (webManifest "web") none) ↔
      Str.stripSuffix (webManifest "web").unit ".service" = none ∨
      ∃ secret err, (webManifest "web").secretFile = some secret ∧
        (Except.ok [] : Except String (List String)) = .error err :=
  @agrees_iff (fun _ => .ok webDoc) (fun _ _ => .ok []) (webRepo "web.service.toml")
    (webManifest "web") none [("web/web", webManifest "web")] "web/web" (by decide)
    (List.mem_singleton_self _) (fun _ => rfl)

/-- The drop-in of the unit `a.service` is written below `a.service.service.d`, and is missing below
`a.service.d`. -/
theorem rendered_dropin_is_missing :
    ¬∀ (toml : String → Except String TomlDoc)
      (credentialKeySet : String → Option String → Except String (List String)) (repo : Repo)
      (m : SealedManifest) (identity : Option String) (manifests : List (String × SealedManifest))
      (key : String), loadAll toml repo = .ok manifests → (key, m) ∈ manifests →
      (∀ path, credentialKeySet path identity = credentialKeySet path none) →
        Agrees toml credentialKeySet repo m identity := by
  intro hall
  have hagrees := hall (fun _ => .ok webDoc) (fun _ _ => .ok []) (webRepo "a.service.service.toml")
    (webManifest "a.service") none [("web/a.service", webManifest "a.service")] "web/a.service"
    (by decide) (List.mem_singleton_self _) (fun _ => rfl)
  have hkeys : sealedKeys (fun _ _ => .ok []) (webRepo "a.service.service.toml") none
      (webManifest "a.service") = .ok [] := rfl
  have hsuffix : Str.stripSuffix (webManifest "a.service").unit ".service" = some "a" := by decide
  exact not_agrees_of_stem_ne (by decide) (fun _ => rfl) hkeys hsuffix (by decide) hagrees

end OneService

end Shellflow.UnitCmd
