import Shellflow.Dsl.SshSpec

/-! The plan model: what a parsed playbook asks for. -/
namespace Shellflow

/-- The text as written, without the leading at-signs, and the script line that named it. -/
structure Target where
  text : String
  line : Nat
deriving DecidableEq, Repr

def Target.mkAt (text : String) (line : Nat) : Target :=
  ⟨Str.trim (Str.trimStartMatches text '@'), line⟩

inductive EnvEntry
  | literal (key value : String)
  | passthrough (key : String)
deriving DecidableEq, Repr

structure SecretEntry where
  file : String
  identity : Option String
deriving DecidableEq, Repr

structure ExportVar where
  name : String
  isPublic : Bool
deriving DecidableEq, Repr

structure LocalStep where
  name : Option String
  script : String
  guard : Option String
  timeout : Option Nat
  exports : List ExportVar
  env : List EnvEntry

structure RemoteStep where
  name : Option String
  target : Target
  script : String
  guard : Option String
  timeout : Option Nat
  env : List EnvEntry

structure CopyEntry where
  src : String
  dst : String
deriving DecidableEq, Repr

/-- A step exists because of its first entry. -/
structure CopyStep where
  name : Option String
  entries : List CopyEntry
  target : Target
  delete : Bool
  excludes : List String
  timeout : Option Nat
  env : List EnvEntry
  entries_ne : entries ≠ []

structure WaitStep where
  name : Option String
  target : Target
  unit : String
  timeout : Option Nat
  intervalSecs : Nat

structure ReloadStep where
  name : Option String
  target : Target
  unit : String
  signal : Option String
  wait : Bool
  timeout : Option Nat

inductive ActiveState
  | active
  | reloading
  | inactive
  | failed
  | activating
  | deactivating
deriving DecidableEq, Repr

namespace ActiveState

def asStr : ActiveState → String
  | active => "active"
  | reloading => "reloading"
  | inactive => "inactive"
  | failed => "failed"
  | activating => "activating"
  | deactivating => "deactivating"

def all : List ActiveState := [active, reloading, inactive, failed, activating, deactivating]

def parse (raw : String) : Option ActiveState := all.find? fun s => s.asStr == raw

def legal : String := "active, reloading, inactive, failed, activating, or deactivating"

end ActiveState

inductive EnabledState
  | enabled
  | disabled
  | static
  | masked
deriving DecidableEq, Repr

namespace EnabledState

def asStr : EnabledState → String
  | enabled => "enabled"
  | disabled => "disabled"
  | static => "static"
  | masked => "masked"

def all : List EnabledState := [enabled, disabled, static, masked]

def parse (raw : String) : Option EnabledState := all.find? fun s => s.asStr == raw

def legal : String := "enabled, disabled, static, or masked"

end EnabledState

theorem ActiveState.parse_asStr (s : ActiveState) : ActiveState.parse s.asStr = some s := by
  cases s <;> decide

theorem EnabledState.parse_asStr (s : EnabledState) : EnabledState.parse s.asStr = some s := by
  cases s <;> decide

inductive Assertion
  | unitState (unit : String) (state : ActiveState)
  | enabled (unit : String) (state : EnabledState)
  | health (url : String) (expect : List String) (method body : Option String)
      (headers : List String)
  | port (ports : List Nat) (udp : Bool)
  | portFree (ports : List Nat)
  | rendered (path : String)
  | noLeak (unit : String) (lines : Option Nat)
  | digest (path : String) (sha256 localPath : Option String)
  | credstore (service : String)
deriving DecidableEq, Repr

structure ServiceStep where
  name : Option String
  target : Target
  unit : String
  enable : Bool
  restart : Bool
  reload : Bool
  wait : Bool
  verify : Bool
  forceStart : Bool
  timeout : Option Nat

structure InstallStep where
  name : Option String
  target : Target
  src : String
  dst : String
  mode : Option Nat
  owner : Option String
  dirMode : Option Nat
  timeout : Option Nat

structure BackupStep where
  name : Option String
  target : Target
  paths : List String
  service : Option String
  keep : Option Nat
  sealed : Bool
  dir : Option String
  timeout : Option Nat

structure CredstoreStep where
  name : Option String
  target : Target
  service : String
  require : List String
  timeout : Option Nat

structure UnitInventoryStep where
  name : Option String
  target : Target
  timeout : Option Nat

structure HelperStep where
  name : Option String
  target : Target
  source : Option String
  triple : Option String
  installPath : String
  timeout : Option Nat

structure ReleaseStep where
  name : Option String
  target : Target
  repo : String
  installedCmd : String
  asset : String
  toDir : String
  baseUrl : Option String
  timeout : Option Nat

structure BuildStep where
  name : Option String
  target : Target
  repo : String
  workdir : Option String
  gitRef : String
  buildCmd : String
  prepCmd : Option String
  artifacts : List String
  installDirs : List String
  units : List String
  versionFlag : String
  minFreeGb : Nat
  timeout : Option Nat

structure ToolchainStep where
  name : Option String
  target : Target
  tools : List String
  timeout : Option Nat

structure ImageStep where
  name : Option String
  target : Target
  images : List String
  prune : Bool
  timeout : Option Nat

/-- A step exists because of its first check. -/
structure AssertStep where
  name : Option String
  target : Target
  checks : List Assertion
  timeout : Option Nat
  checks_ne : checks ≠ []

inductive Step
  | localBlock (s : LocalStep)
  | remote (s : RemoteStep)
  | copy (s : CopyStep)
  | wait (s : WaitStep)
  | reload (s : ReloadStep)
  | assert (s : AssertStep)
  | service (s : ServiceStep)
  | install (s : InstallStep)
  | backup (s : BackupStep)
  | credstore (s : CredstoreStep)
  | unitInventory (s : UnitInventoryStep)
  | helper (s : HelperStep)
  | release (s : ReleaseStep)
  | build (s : BuildStep)
  | toolchain (s : ToolchainStep)
  | image (s : ImageStep)

namespace Step

/-- The label from `@name`. -/
def name : Step → Option String
  | localBlock s => s.name
  | remote s => s.name
  | copy s => s.name
  | wait s => s.name
  | reload s => s.name
  | assert s => s.name
  | service s => s.name
  | install s => s.name
  | backup s => s.name
  | credstore s => s.name
  | unitInventory s => s.name
  | helper s => s.name
  | release s => s.name
  | build s => s.name
  | toolchain s => s.name
  | image s => s.name

end Step

structure Workdir where
  dirPrefix : String
deriving DecidableEq, Repr

/-- Servers and groups in the order of their names. -/
structure ExecutionPlan where
  servers : List (String × SshSpec)
  groups : List (String × List String)
  env : List EnvEntry
  secrets : List SecretEntry
  workdir : Option Workdir
  steps : List Step

def ExecutionPlan.empty : ExecutionPlan := ⟨[], [], [], [], none, []⟩

end Shellflow
