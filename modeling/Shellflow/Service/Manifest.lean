import Shellflow.Lib.Assoc
import Shellflow.Lib.Fallible
import Shellflow.Text

/-! The service manifests of a repository: reading one, reading all of them, and the services of
each host. -/
namespace Shellflow

/-- A value of a TOML document. -/
inductive TomlItem
  | str (text : String)
  | bool (b : Bool)
  | int (n : Int)
  | array (items : List TomlItem)
  | table (entries : List (String × TomlItem))
  | tables (entries : List (List (String × TomlItem)))
  | other

abbrev TomlDoc := List (String × TomlItem)

structure ManifestError where
  message : String
deriving DecidableEq, Repr

/-- The facts about one service that its audit and its status need. -/
structure ServiceManifest where
  service : String
  host : String
  unit : String
deriving DecidableEq, Repr

def manifestError {α : Type} (message : String) : Except ManifestError α := .error ⟨message⟩

section Keys
variable (doc : TomlDoc) (key service : String)

def TomlItem.asStr : TomlItem → Option String
  | str text => some text
  | _ => none

def strAs (label : String) : Except ManifestError String :=
  match (doc.lookup key).bind TomlItem.asStr with
  | some text => .ok text
  | none => manifestError s!"the manifest of `{service}` has no `{label}` string"

def requireStr : Except ManifestError String := strAs doc key service key

def requireStrIn (sub : String) : Except ManifestError String := strAs doc key service s!"{sub}.{key}"

def optionalStr : Except ManifestError (Option String) :=
  match doc.lookup key with
  | none => .ok none
  | some (.str text) => .ok (some text)
  | some _ => manifestError s!"the manifest of `{service}` has a non-string `{key}`"

def optionalBool : Except ManifestError Bool :=
  match doc.lookup key with
  | none => .ok true
  | some (.bool b) => .ok b
  | some _ => manifestError s!"the manifest of `{service}` has a non-boolean `{key}`"

def optionalStrList : Except ManifestError (List String) :=
  match doc.lookup key with
  | none => .ok []
  | some (.array items) => items.mapM fun item =>
    match item with
    | .str text => .ok text
    | _ => manifestError s!"the manifest of `{service}` has a non-string `{key}` entry"
  | some _ => manifestError s!"the manifest of `{service}` has a non-list `{key}`"

def manifestPort (item : TomlItem) : Except ManifestError Int :=
  match item with
  | .int port =>
    if port < 0 ∨ 65536 ≤ port then
      manifestError s!"the manifest of `{service}` has an out-of-range port"
    else if port = 0 then
      manifestError s!"the manifest of `{service}` has port 0, which is not a listening port"
    else .ok port
  | _ => manifestError s!"the manifest of `{service}` has a non-integer port"

def optionalPorts : Except ManifestError (List Int) :=
  match doc.lookup "ports" with
  | none => .ok []
  | some (.array items) => items.mapM (manifestPort service)
  | some _ => manifestError s!"the manifest of `{service}` has a non-list `ports`"

def manifestRender (table : TomlDoc) : Except ManifestError (String × String) := do
  let template ← requireStrIn table "template" service "render"
  let target ← requireStrIn table "target" service "render"
  .ok (template, target)

def manifestRenders : Except ManifestError (List (String × String)) :=
  match doc.lookup "render" with
  | none => .ok []
  | some (.tables tables) => tables.mapM (manifestRender service)
  | some (.table table) => (fun render => [render]) <$> manifestRender service table
  | some _ => manifestError "`[[render]]` must be a table or an array of tables"

end Keys

def isServiceName (name : String) : Bool :=
  name ≠ "" && !Str.startsWith name "." && !Str.contains name ".." &&
    Str.all name fun c => isAsciiAlphanumeric c || c == '-' || c == '_' || c == '.'

def isHostAlias (name : String) : Bool :=
  name ≠ "" && Str.all name fun c => isAsciiAlphanumeric c || c == '_' || c == '-' || c == '.'

def validateServiceName (name : String) : Except ManifestError Unit :=
  if isServiceName name then .ok ()
  else manifestError
    s!"invalid service name `{name}` (allowed: letters, digits, `-`, `_`, `.`)"

def validateHostAlias (name service : String) : Except ManifestError Unit :=
  if isHostAlias name then .ok ()
  else manifestError (s!"manifest `{service}`: invalid host alias `{name}` (allowed: letters, " ++
    "digits, `_`, `-`, `.`)")

def validateManifestUnit (name service : String) : Except ManifestError Unit :=
  if isValidUnitName name then .ok ()
  else manifestError s!"manifest `{service}`: invalid unit name `{name}`"

/-- A directory below `services/`, with its files and what they hold. -/
structure ServiceDir where
  name : String
  files : Option (List (String × Option String))

/-- The directories below `services/`, in the order they are listed in. -/
abbrev ServiceTree := Option (List ServiceDir)

section Load
variable (toml : String → Except String TomlDoc)

namespace ServiceManifest

def parse (service text : String) : Except ManifestError ServiceManifest := do
  validateServiceName service
  let doc ← (toml text).mapError fun err => ManifestError.mk s!"invalid TOML: {err}"
  let host ← requireStr doc "host" service
  validateHostAlias host service
  let unit ← requireStr doc "unit" service
  validateManifestUnit unit service
  let _ ← manifestRenders doc service
  let _ ← optionalStr doc "binary" service
  let _ ← optionalStr doc "secret_file" service
  let _ ← optionalStr doc "store" service
  let _ ← optionalStrList doc "credentials" service
  let _ ← optionalPorts doc service
  let _ ← optionalStr doc "health" service
  let _ ← optionalStr doc "user" service
  let _ ← optionalStr doc "runtime_dir" service
  let _ ← optionalStr doc "type" service
  let _ ← optionalBool doc "hardening" service
  .ok ⟨service, host, unit⟩

/-- The name of the file decides the unit. -/
def load (service unit : String) (content : Option String) :
    Except ManifestError ServiceManifest :=
  match content with
  | none => manifestError s!"cannot read `services/{service}/{unit}.service.toml`"
  | some text => do
    let manifest ← parse toml service text
    .ok { manifest with unit := unit }

end ServiceManifest

/-- The extension of a file; a dot in front is none. -/
def fileExtension (name : String) : Option String :=
  (Str.rsplitOnceChar name '.').bind fun (before, after) => if before = "" then none else some after

/-- The unit that a file of a service directory is the manifest of. -/
def manifestUnit (file : String) : Option String :=
  if fileExtension file = some "toml" then Str.stripSuffix (fileStem file) ".service" else none

def manifestLe (a b : String) : Bool := Str.leChars a.toList b.toList

def loadFile (service : String) (manifests : List (String × ServiceManifest))
    (file : String × Option String) : Except ManifestError (List (String × ServiceManifest)) :=
  match manifestUnit file.1 with
  | none => .ok manifests
  | some unit => do
    let manifest ← ServiceManifest.load toml service unit file.2
    .ok (Assoc.put manifestLe (service ++ "/" ++ unit, manifest) manifests)

def loadAll (tree : ServiceTree) : Except ManifestError (List (String × ServiceManifest)) :=
  match tree with
  | none => .ok []
  | some dirs => dirs.foldlM (fun manifests dir =>
    match dir.files with
    | none => .ok manifests
    | some files => files.foldlM (loadFile toml dir.name) manifests) []

end Load

/-- The host of a service, which all its units name. -/
def serviceHost (hosts : List (String × String)) (manifest : ServiceManifest) :
    Except ManifestError (List (String × String)) :=
  match hosts.lookup manifest.service with
  | some host =>
    if host ≠ manifest.host then
      manifestError (s!"the units of `{manifest.service}` disagree on the host: `{host}` and " ++
        s!"`{manifest.host}`")
    else .ok (Assoc.put manifestLe (manifest.service, manifest.host) hosts)
  | none => .ok (Assoc.put manifestLe (manifest.service, manifest.host) hosts)

def serviceFleet (manifests : List ServiceManifest) :
    Except ManifestError (List (String × List String)) := do
  let hosts ← manifests.foldlM serviceHost []
  .ok (hosts.foldl (fun fleet p => Assoc.pushUnder manifestLe fleet p.2 p.1) [])

end Shellflow
