import Shellflow.Dsl.Words

/-! The payloads of the directives: what each one accepts, and the step or the check it asks
for. Nothing here reads or changes the scan beyond what `StepMeta` carries. -/
namespace Shellflow

/-- What earlier lines hold ready for the next step. -/
structure StepMeta where
  name : Option String
  timeout : Option Nat
  lastTarget : Option String

def ensure (ok : Bool) (line : Nat) (directive reason : String) : Except ParseError Unit :=
  if ok then .ok () else invalidDirective line directive reason

def ofOption {α : Type} (x : Option α) (line : Nat) (directive reason : String) :
    Except ParseError α :=
  match x with
  | some a => .ok a
  | none => invalidDirective line directive reason

theorem ensure_ok {ok : Bool} {line : Nat} {directive reason : String} {u : Unit}
    (h : ensure ok line directive reason = .ok u) : ok = true := by
  unfold ensure at h
  split at h
  next hok => exact hok
  next => cases h

/-- The explicit target, or the one of the previous step. -/
def resolveAssertTarget (lastTarget explicit : Option String) (directive : String) (line : Nat) :
    Except ParseError String :=
  match explicit with
  | some target =>
    if targetText target = "" then invalidDirective line directive "missing target"
    else .ok (targetText target)
  | none =>
    ofOption lastTarget line directive "missing target (no previous step to inherit it from)"

/-- A word that starts with an at-sign names the target, once. -/
def explicitTarget (directive : String) (line : Nat) (target : Option String) (named : String) :
    Except ParseError (Option String) := do
  ensure (named ≠ "") line directive "missing target"
  ensure target.isNone line directive "more than one target"
  .ok (some named)

def safeUnit (raw directive : String) (line : Nat) : Except ParseError String := do
  let unit := normalizeUnit raw
  ensure (isValidUnitName unit) line directive s!"unsafe unit name `{unit}`"
  .ok unit

/-- The pieces of a comma-separated list, without blanks around them and without empty ones. -/
def commaList (raw : String) : List String :=
  ((Str.splitChar raw ',').map Str.trim).filter fun s => s ≠ ""

section Copy

structure CopyDirective where
  target : String
  entry : CopyEntry
  delete : Bool
  excludes : List String

def copyFlag (line : Nat) (acc : Bool × List String) (flag : Flag) :
    Except ParseError (Bool × List String) :=
  if flag.1 = "--delete" then .ok (true, acc.2)
  else if flag.1 = "--exclude" then do
    let value ← flagValue flag.2 flag.1 "copy" line
    let glob := Str.trim (stripSurroundingQuotes value)
    ensure (glob ≠ "") line "copy" "`--exclude` glob must not be empty"
    .ok (acc.1, acc.2 ++ [glob])
  else unknownFlag "copy" flag.1 line

def parseCopy (payload : String) (line : Nat) : Except ParseError CopyDirective := do
  let (src, rest) ← ofOption (Str.splitOnce payload "->") line "copy"
    "expected `src -> dst @target [--delete] [--exclude <glob>]`"
  let src := Str.trim src
  ensure (src ≠ "") line "copy" "missing source path"
  let (positional, flags) ← splitFlags rest ["--delete"] "copy" line
  let (delete, excludes) ← flags.foldlM (copyFlag line) (false, [])
  let last ← ofOption positional.getLast? line "copy" "missing target"
  let target ← requireTarget last "copy" line
  let dst := Str.join " " positional.dropLast
  ensure (dst ≠ "") line "copy" "missing destination path"
  .ok ⟨target, ⟨src, dst⟩, delete, excludes⟩

end Copy

section Assertions

structure AssertWords where
  unit : Option String
  state : Option String
  target : Option String

def assertWord (line : Nat) (acc : AssertWords) (token : String) :
    Except ParseError AssertWords :=
  match Str.stripPrefix token "@" with
  | some named => do
    let target ← explicitTarget "assert" line acc.target named
    .ok { acc with target := target }
  | none =>
    if acc.unit.isNone then .ok { acc with unit := some token }
    else if acc.state.isNone then .ok { acc with state := some token }
    else invalidDirective line "assert" "expected `<unit> [@<target>] [<state>]`"

def expectedState (raw : Option String) (line : Nat) : Except ParseError ActiveState :=
  match raw with
  | none => .ok ActiveState.active
  | some raw =>
    ofOption (ActiveState.parse raw) line "assert"
      s!"invalid state `{raw}` (expected {ActiveState.legal})"

def parseAssert (payload : String) (line : Nat) :
    Except ParseError (Option String × Assertion) := do
  let words ← (splitWords payload).foldlM (assertWord line) ⟨none, none, none⟩
  let unit ← ofOption words.unit line "assert" "missing unit name"
  let unit ← safeUnit unit "assert" line
  let state ← expectedState words.state line
  .ok (words.target, .unitState unit state)

structure HealthArgs where
  url : Option String
  target : Option String
  expect : List String
  method : Option String
  body : Option String
  headers : List String

/-- What is said when a flag with a value ends the payload. -/
def healthFlagNeeds (token : String) : Option String :=
  [("--expect", "`--expect` requires a list of status codes"),
    ("--method", "`--method` requires an HTTP method"),
    ("--body", "`--body` requires a request body"),
    ("--header", "`--header` requires a `Name: value` pair")].lookup token

def statusCode (line : Nat) (acc : List String) (raw : String) :
    Except ParseError (List String) := do
  let code := Str.trim raw
  ensure (isStatusPattern code) line "assert_health" s!"invalid status code `{code}`"
  .ok (acc ++ [code])

def healthFlag (line : Nat) (acc : HealthArgs) (token value : String) :
    Except ParseError HealthArgs :=
  if token = "--expect" then do
    let expect ← (Str.splitChar value ',').foldlM (statusCode line) acc.expect
    .ok { acc with expect := expect }
  else if token = "--method" then do
    let method := Str.toAsciiUppercase value
    ensure (Str.all method isAsciiAlphabetic) line "assert_health"
      s!"invalid HTTP method `{method}`"
    .ok { acc with method := some method }
  else if token = "--body" then .ok { acc with body := some (stripSurroundingQuotes value) }
  else do
    ensure (Str.contains value ":") line "assert_health"
      s!"invalid header `{value}` (want `Name:value`)"
    .ok { acc with headers := acc.headers ++ [stripSurroundingQuotes value] }

def healthWord (line : Nat) (acc : HealthArgs) (token : String) : Except ParseError HealthArgs :=
  if Str.startsWith token "--" then unknownFlag "assert_health" token line
  else
    match Str.stripPrefix token "@" with
    | some named => do
      let target ← explicitTarget "assert_health" line acc.target named
      .ok { acc with target := target }
    | none => do
      ensure acc.url.isNone line "assert_health" "expected `<url> [@<target>] [--expect CODES]`"
      .ok { acc with url := some (stripSurroundingQuotes token) }

def healthFrom (line : Nat) : HealthArgs → List String → Except ParseError HealthArgs
  | acc, [] => .ok acc
  | acc, [token] =>
    match healthFlagNeeds token with
    | some reason => invalidDirective line "assert_health" reason
    | none => healthWord line acc token
  | acc, token :: value :: rest =>
    match healthFlagNeeds token with
    | some _ => do
      let acc ← healthFlag line acc token value
      healthFrom line acc rest
    | none => do
      let acc ← healthWord line acc token
      healthFrom line acc (value :: rest)

def parseAssertHealth (payload : String) (line : Nat) :
    Except ParseError (Option String × Assertion) := do
  let args ← healthFrom line ⟨none, none, [], none, none, []⟩ (splitWords payload)
  let url ← ofOption args.url line "assert_health" "missing URL"
  ensure (Str.startsWith url "http://" || Str.startsWith url "https://") line "assert_health"
    s!"only http and https URLs can be probed (got `{url}`)"
  ensure (Str.all url fun c => !(Str.isWhitespace c || isControl c)) line "assert_health"
    "the URL must not contain whitespace"
  .ok (args.target, .health url args.expect args.method args.body args.headers)

structure PortWords where
  ports : List Nat
  target : Option String
  udp : Bool

def portPart (directive : String) (line : Nat) (ports : List Nat) (part : String) :
    Except ParseError (List Nat) :=
  match Str.parseU16 part with
  | none => invalidDirective line directive s!"invalid port `{part}`"
  | some 0 => invalidDirective line directive "port 0 is not a listening port"
  | some port => .ok (ports ++ [port])

/-- Only `@assert_port` knows the flag for UDP. -/
def portWord (directive : String) (udpFlag : Bool) (line : Nat) (acc : PortWords)
    (token : String) : Except ParseError PortWords :=
  if udpFlag && token == "--udp" then .ok { acc with udp := true }
  else
    match Str.stripPrefix token "@" with
    | some named => do
      let target ← explicitTarget directive line acc.target named
      .ok { acc with target := target }
    | none => do
      let ports ← (commaList token).foldlM (portPart directive line) acc.ports
      .ok { acc with ports := ports }

def parsePortWords (directive : String) (udpFlag : Bool) (payload : String) (line : Nat) :
    Except ParseError PortWords := do
  let words ← (splitWords payload).foldlM (portWord directive udpFlag line) ⟨[], none, false⟩
  ensure (!words.ports.isEmpty) line directive "missing port"
  .ok words

def parseAssertPort (payload : String) (line : Nat) :
    Except ParseError (Option String × Assertion) := do
  let words ← parsePortWords "assert_port" true payload line
  .ok (words.target, .port words.ports words.udp)

def parseAssertPortFree (payload : String) (line : Nat) :
    Except ParseError (Option String × Assertion) := do
  let words ← parsePortWords "assert_port_free" false payload line
  .ok (words.target, .portFree words.ports)

def renderedWord (line : Nat) (acc : Option String × Option String) (token : String) :
    Except ParseError (Option String × Option String) :=
  match Str.stripPrefix token "@" with
  | some named => do
    let target ← explicitTarget "assert_rendered" line acc.2 named
    .ok (acc.1, target)
  | none => do
    ensure acc.1.isNone line "assert_rendered" "expected `<path> [@<target>]`"
    .ok (some (stripSurroundingQuotes token), acc.2)

def parseAssertRendered (payload : String) (line : Nat) :
    Except ParseError (Option String × Assertion) := do
  let (path, target) ← (splitWords payload).foldlM (renderedWord line) (none, none)
  let path ← ofOption path line "assert_rendered" "missing path"
  ensure (Str.startsWith path "/") line "assert_rendered"
    s!"the path must be absolute (got `{path}`)"
  .ok (target, .rendered path)

/-- The optional target after the first positional word. -/
def secondTarget (positional : List String) : Option String := positional[1]?.map targetText

def noLeakFlag (line : Nat) (_ : Option Nat) (flag : Flag) : Except ParseError (Option Nat) :=
  if flag.1 = "--lines" then do
    let raw ← flagValue flag.2 flag.1 "assert_no_leak" line
    match Str.parseU64 raw with
    | none => invalidDirective line "assert_no_leak" s!"invalid line count `{raw}`"
    | some 0 => invalidDirective line "assert_no_leak" "`--lines` must be greater than zero"
    | some lines => .ok (some lines)
  else unknownFlag "assert_no_leak" flag.1 line

def parseAssertNoLeak (payload : String) (line : Nat) :
    Except ParseError (Option String × Assertion) := do
  let (positional, flags) ← splitFlags payload [] "assert_no_leak" line
  let lines ← flags.foldlM (noLeakFlag line) none
  let unit ← ofOption positional.head? line "assert_no_leak" "missing unit name"
  let unit ← safeUnit unit "assert_no_leak" line
  .ok (secondTarget positional, .noLeak unit lines)

def digestFlag (line : Nat) (acc : Option String × Option String) (flag : Flag) :
    Except ParseError (Option String × Option String) :=
  if flag.1 = "--sha256" then do
    let raw ← flagValue flag.2 flag.1 "assert_digest" line
    let hex := Str.toAsciiLowercase (Str.trim raw)
    ensure (hex.toList.length == 64 && Str.all hex isAsciiHexdigit) line "assert_digest"
      s!"`--sha256` wants 64 hex characters (got `{raw}`)"
    .ok (some hex, acc.2)
  else if flag.1 = "--local" then do
    let raw ← flagValue flag.2 flag.1 "assert_digest" line
    .ok (acc.1, some raw)
  else unknownFlag "assert_digest" flag.1 line

def parseAssertDigest (payload : String) (line : Nat) :
    Except ParseError (Option String × Assertion) := do
  let (positional, flags) ← splitFlags payload [] "assert_digest" line
  let (sha256, localPath) ← flags.foldlM (digestFlag line) (none, none)
  let path ← ofOption positional.head? line "assert_digest" "missing path"
  let path := Str.trim path
  ensure (Str.startsWith path "/") line "assert_digest"
    s!"the path must be absolute (got `{path}`)"
  .ok (secondTarget positional, .digest path sha256 localPath)

def safeService (raw directive : String) (line : Nat) : Except ParseError String := do
  let service := Str.trim raw
  ensure (isValidUnitName service) line directive s!"unsafe service name `{service}`"
  .ok service

def parseAssertCredstore (payload : String) (line : Nat) :
    Except ParseError (Option String × Assertion) := do
  let (positional, _) ← splitFlags payload [] "assert_credstore" line
  let service ← ofOption positional.head? line "assert_credstore" "missing service name"
  let service ← safeService service "assert_credstore" line
  .ok (secondTarget positional, .credstore service)

def enabledWord (line : Nat) (acc : AssertWords) (token : String) :
    Except ParseError AssertWords :=
  match Str.stripPrefix token "@" with
  | some named => do
    let target ← explicitTarget "assert_enabled" line acc.target named
    .ok { acc with target := target }
  | none =>
    if acc.unit.isNone then .ok { acc with unit := some (normalizeUnit token) }
    else if acc.state.isNone then .ok { acc with state := some token }
    else invalidDirective line "assert_enabled" "expected `<unit> <state> [@<target>]`"

def parseAssertEnabled (payload : String) (line : Nat) :
    Except ParseError (Option String × Assertion) := do
  let words ← (splitWords payload).foldlM (enabledWord line) ⟨none, none, none⟩
  let unit ← ofOption words.unit line "assert_enabled" "missing unit"
  let raw ← ofOption words.state line "assert_enabled"
    "missing state (expected enabled, disabled, static, or masked)"
  let state ← ofOption (EnabledState.parse raw) line "assert_enabled"
    s!"invalid state `{raw}` (expected {EnabledState.legal})"
  ensure (isValidUnitName unit) line "assert_enabled" s!"unsafe unit name `{unit}`"
  .ok (words.target, .enabled unit state)

end Assertions

section Steps

structure TimedFlags where
  timeout : Option Nat
  signal : Option String
  wait : Bool

def waitFlag (line : Nat) (_ : Option Nat) (flag : Flag) : Except ParseError (Option Nat) :=
  if flag.1 = "--timeout" then do
    let raw ← flagValue flag.2 flag.1 "wait_active" line
    let secs ← parseSecs raw "wait_active" line
    .ok (some secs)
  else unknownFlag "wait_active" flag.1 line

/-- The two positional words most directives take. -/
def twoWords (positional : List String) (line : Nat) (directive expected : String) :
    Except ParseError (String × String) :=
  match positional with
  | [first, second] => .ok (first, second)
  | _ => invalidDirective line directive expected

def parseWait (m : StepMeta) (payload : String) (line : Nat) :
    Except ParseError (String × WaitStep) := do
  let (positional, flags) ← splitFlags payload [] "wait_active" line
  let timeout ← flags.foldlM (waitFlag line) m.timeout
  let (unit, target) ← twoWords positional line "wait_active"
    "expected `<unit> @<target> [--timeout SECS]`"
  let unit ← safeUnit unit "wait_active" line
  let target ← requireTarget target "wait_active" line
  .ok (target, ⟨m.name, .mkAt target line, unit, timeout, 5⟩)

def reloadFlag (line : Nat) (acc : TimedFlags) (flag : Flag) : Except ParseError TimedFlags :=
  if flag.1 = "--wait" then .ok { acc with wait := true }
  else if flag.1 = "--timeout" then do
    let raw ← flagValue flag.2 flag.1 "reload" line
    let secs ← parseSecs raw "reload" line
    .ok { acc with timeout := some secs }
  else if flag.1 = "--signal" then do
    let sig ← flagValue flag.2 flag.1 "reload" line
    ensure (sig ≠ "" && Str.all sig fun c => isAsciiAlphanumeric c || c == '_') line "reload"
      s!"invalid signal `{sig}` (want e.g. SIGUSR1)"
    .ok { acc with signal := some sig }
  else unknownFlag "reload" flag.1 line

def parseReload (m : StepMeta) (payload : String) (line : Nat) :
    Except ParseError (String × ReloadStep) := do
  let (positional, flags) ← splitFlags payload ["--wait"] "reload" line
  let args ← flags.foldlM (reloadFlag line) ⟨m.timeout, none, false⟩
  let (unit, target) ← twoWords positional line "reload"
    "expected `<unit> @<target> [--signal SIG] [--wait] [--timeout SECS]`"
  let unit ← safeUnit unit "reload" line
  let target ← requireTarget target "reload" line
  .ok (target, ⟨m.name, .mkAt target line, unit, args.signal, args.wait, args.timeout⟩)

structure ServiceFlags where
  enable : Bool
  restart : Bool
  reload : Bool
  wait : Bool
  verify : Bool
  forceStart : Bool
  timeout : Option Nat

def serviceFlag (line : Nat) (acc : ServiceFlags) (flag : Flag) :
    Except ParseError ServiceFlags :=
  if flag.1 = "--enable" then .ok { acc with enable := true }
  else if flag.1 = "--restart" then .ok { acc with restart := true }
  else if flag.1 = "--reload" then .ok { acc with reload := true }
  else if flag.1 = "--wait" then .ok { acc with wait := true }
  else if flag.1 = "--verify" then .ok { acc with verify := true }
  else if flag.1 = "--force-start" then .ok { acc with forceStart := true }
  else if flag.1 = "--timeout" then do
    let raw ← flagValue flag.2 flag.1 "service" line
    let secs ← parseSecs raw "service" line
    .ok { acc with timeout := some secs }
  else unknownFlag "service" flag.1 line

def serviceBools : List String :=
  ["--enable", "--restart", "--reload", "--wait", "--verify", "--force-start"]

def parseService (m : StepMeta) (payload : String) (line : Nat) :
    Except ParseError (String × ServiceStep) := do
  let (positional, flags) ← splitFlags payload serviceBools "service" line
  let args ← flags.foldlM (serviceFlag line)
    ⟨false, false, false, false, false, false, m.timeout⟩
  let (unit, target) ← twoWords positional line "service"
    ("expected `<unit> @<target> [--enable] [--restart] [--reload] [--wait] " ++
      "[--verify] [--force-start]`")
  let unit ← safeUnit unit "service" line
  let target ← requireTarget target "service" line
  .ok (target, ⟨m.name, .mkAt target line, unit, args.enable, args.restart, args.reload,
    args.wait, args.verify, args.forceStart, args.timeout⟩)

structure InstallFlags where
  mode : Option Nat
  owner : Option String
  dirMode : Option Nat

def installFlag (line : Nat) (acc : InstallFlags) (flag : Flag) :
    Except ParseError InstallFlags :=
  if flag.1 = "--mode" then do
    let raw ← flagValue flag.2 flag.1 "install" line
    let mode ← parseMode raw "install" line
    .ok { acc with mode := some mode }
  else if flag.1 = "--dir-mode" then do
    let raw ← flagValue flag.2 flag.1 "install" line
    let mode ← parseMode raw "install" line
    .ok { acc with dirMode := some mode }
  else if flag.1 = "--owner" then do
    let raw ← flagValue flag.2 flag.1 "install" line
    let owner ← parseOwner raw "install" line
    .ok { acc with owner := some owner }
  else unknownFlag "install" flag.1 line

def parseInstall (m : StepMeta) (payload : String) (line : Nat) :
    Except ParseError (String × InstallStep) := do
  let (src, rest) ← ofOption (Str.splitOnce payload "->") line "install"
    "expected `src -> dst @target [--mode M] [--owner U:G]`"
  let src := Str.trim src
  ensure (src ≠ "") line "install" "missing source path"
  let (positional, flags) ← splitFlags rest [] "install" line
  let args ← flags.foldlM (installFlag line) ⟨none, none, none⟩
  let (dst, target) ← twoWords positional line "install"
    "expected `src -> dst @target [--mode M] [--owner U:G] [--dir-mode M]`"
  let dst := Str.trim dst
  ensure (Str.startsWith dst "/") line "install"
    s!"the destination must be absolute (got `{dst}`)"
  let target ← requireTarget target "install" line
  .ok (target, ⟨m.name, .mkAt target line, src, dst, args.mode, args.owner, args.dirMode,
    m.timeout⟩)

structure BackupFlags where
  keep : Option Nat
  sealed : Bool
  service : Option String
  dir : Option String

def keepCount (raw : String) (line : Nat) : Except ParseError Nat :=
  match Str.parseU32 raw with
  | none => invalidDirective line "backup" s!"invalid keep count `{raw}`"
  | some 0 => invalidDirective line "backup" "`--keep` must be greater than zero"
  | some keep => .ok keep

def backupFlag (line : Nat) (acc : BackupFlags) (flag : Flag) : Except ParseError BackupFlags :=
  if flag.1 = "--keep" then do
    let raw ← flagValue flag.2 flag.1 "backup" line
    let keep ← keepCount raw line
    .ok { acc with keep := some keep }
  else if flag.1 = "--seal" then .ok { acc with sealed := true }
  else if flag.1 = "--service" then do
    let raw ← flagValue flag.2 flag.1 "backup" line
    ensure (isValidUnitName raw) line "backup" s!"unsafe service name `{raw}`"
    .ok { acc with service := some raw }
  else if flag.1 = "--dir" then do
    let raw ← flagValue flag.2 flag.1 "backup" line
    .ok { acc with dir := some raw }
  else unknownFlag "backup" flag.1 line

/-- The first path that is not absolute is reported. -/
def absolutePaths (paths : List String) (line : Nat) (directive : String)
    (reason : String → String) : Except ParseError Unit :=
  match paths.find? fun p => !Str.startsWith p "/" with
  | none => .ok ()
  | some p => invalidDirective line directive (reason p)

def parseBackup (m : StepMeta) (payload : String) (line : Nat) :
    Except ParseError (String × BackupStep) := do
  let (positional, flags) ← splitFlags payload ["--seal"] "backup" line
  let args ← flags.foldlM (backupFlag line) ⟨none, false, none, none⟩
  ensure (2 ≤ positional.length) line "backup"
    "expected `<path>… @<target> [--keep N] [--seal] [--dir PATH]`"
  let target ← requireTarget (positional.getLastD "") "backup" line
  let paths := positional.dropLast
  absolutePaths paths line "backup" fun p => s!"the path must be absolute (got `{p}`)"
  absolutePaths args.dir.toList line "backup"
    fun p => s!"the snapshot directory must be absolute (got `{p}`)"
  .ok (target, ⟨m.name, .mkAt target line, paths, args.service, args.keep, args.sealed, args.dir,
    m.timeout⟩)

def credentialKey (line : Nat) (acc : List String) (key : String) :
    Except ParseError (List String) := do
  ensure (isValidVarName key) line "credstore" s!"invalid credential key `{key}`"
  .ok (acc ++ [key])

def credstoreFlag (line : Nat) (acc : List String) (flag : Flag) :
    Except ParseError (List String) :=
  if flag.1 = "--require" then do
    let raw ← flagValue flag.2 flag.1 "credstore" line
    (commaList raw).foldlM (credentialKey line) acc
  else unknownFlag "credstore" flag.1 line

def parseCredstore (m : StepMeta) (payload : String) (line : Nat) :
    Except ParseError (String × CredstoreStep) := do
  let (positional, flags) ← splitFlags payload [] "credstore" line
  let require ← flags.foldlM (credstoreFlag line) []
  let (service, target) ← twoWords positional line "credstore"
    "expected `<service> @<target> [--require KEY,…]`"
  let service ← safeService service "credstore" line
  let target ← requireTarget target "credstore" line
  .ok (target, ⟨m.name, .mkAt target line, service, require, m.timeout⟩)

/-- The optional target as the only positional word. -/
def firstTarget (positional : List String) : Option String := positional.head?.map targetText

def parseUnitInventory (m : StepMeta) (payload : String) (line : Nat) :
    Except ParseError (String × UnitInventoryStep) := do
  let (positional, _) ← splitFlags payload [] "unit_inventory" line
  let target ← resolveAssertTarget m.lastTarget (firstTarget positional) "unit_inventory" line
  .ok (target, ⟨m.name, .mkAt target line, m.timeout⟩)

structure HelperFlags where
  source : Option String
  triple : Option String
  installPath : String

def helperFlag (line : Nat) (acc : HelperFlags) (flag : Flag) : Except ParseError HelperFlags :=
  if flag.1 = "--source" then do
    let raw ← flagValue flag.2 flag.1 "helper" line
    .ok { acc with source := some raw }
  else if flag.1 = "--triple" then do
    let raw ← flagValue flag.2 flag.1 "helper" line
    .ok { acc with triple := some raw }
  else if flag.1 = "--install-path" then do
    let raw ← flagValue flag.2 flag.1 "helper" line
    ensure (Str.startsWith raw "/") line "helper"
      s!"the install path must be absolute (got `{raw}`)"
    .ok { acc with installPath := raw }
  else unknownFlag "helper" flag.1 line

def parseHelper (m : StepMeta) (payload : String) (line : Nat) :
    Except ParseError (String × HelperStep) := do
  let (positional, flags) ← splitFlags payload [] "helper" line
  let args ← flags.foldlM (helperFlag line) ⟨none, none, "/usr/local/bin/shellflow"⟩
  ensure (positional.length ≤ 1) line "helper"
    "expected `[@<target>] [--source DIR] [--triple T]`"
  let target ← resolveAssertTarget m.lastTarget (firstTarget positional) "helper" line
  .ok (target, ⟨m.name, .mkAt target line, args.source, args.triple, args.installPath, m.timeout⟩)

structure ReleaseFlags where
  installedCmd : Option String
  asset : Option String
  toDir : Option String
  baseUrl : Option String

def releaseFlag (line : Nat) (acc : ReleaseFlags) (flag : Flag) :
    Except ParseError ReleaseFlags :=
  if flag.1 = "--installed-cmd" then do
    let raw ← flagValue flag.2 flag.1 "release" line
    .ok { acc with installedCmd := some raw }
  else if flag.1 = "--asset" then do
    let raw ← flagValue flag.2 flag.1 "release" line
    .ok { acc with asset := some raw }
  else if flag.1 = "--to" then do
    let raw ← flagValue flag.2 flag.1 "release" line
    .ok { acc with toDir := some raw }
  else if flag.1 = "--base-url" then do
    let raw ← flagValue flag.2 flag.1 "release" line
    .ok { acc with baseUrl := some raw }
  else unknownFlag "release" flag.1 line

def parseRelease (m : StepMeta) (payload : String) (line : Nat) :
    Except ParseError (String × ReleaseStep) := do
  let (positional, flags) ← splitFlags payload [] "release" line
  let args ← flags.foldlM (releaseFlag line) ⟨none, none, none, none⟩
  let (repo, target) ← twoWords positional line "release"
    ("expected `<owner/repo> @<target> --installed-cmd CMD --asset PATTERN --to DIR " ++
      "[--base-url URL]`")
  ensure (Str.contains repo "/" && !Str.startsWith repo "/" && !Str.contains repo " " &&
      (Str.splitChar repo '/').length == 2) line "release"
    s!"the repo must look like `owner/name` (got `{repo}`)"
  let target ← requireTarget target "release" line
  let installedCmd ← ofOption args.installedCmd line "release" "missing `--installed-cmd`"
  let asset ← ofOption args.asset line "release" "missing `--asset`"
  let toDir ← ofOption args.toDir line "release" "missing `--to`"
  ensure (Str.startsWith toDir "/") line "release"
    s!"the destination must be absolute (got `{toDir}`)"
  let base := args.baseUrl.getD ""
  ensure (args.baseUrl.isNone || Str.startsWith base "https://" || Str.startsWith base "http://")
    line "release" s!"the base URL must be http(s) (got `{base}`)"
  .ok (target, ⟨m.name, .mkAt target line, repo, installedCmd, asset, toDir, args.baseUrl,
    m.timeout⟩)

structure BuildFlags where
  gitRef : Option String
  buildCmd : Option String
  prepCmd : Option String
  workdir : Option String
  artifacts : List String
  installDirs : List String
  units : List String
  versionFlag : String
  minFreeGb : Nat

def buildFlag (line : Nat) (acc : BuildFlags) (flag : Flag) : Except ParseError BuildFlags :=
  if flag.1 = "--ref" then do
    let raw ← flagValue flag.2 flag.1 "build" line
    .ok { acc with gitRef := some raw }
  else if flag.1 = "--build" then do
    let raw ← flagValue flag.2 flag.1 "build" line
    .ok { acc with buildCmd := some raw }
  else if flag.1 = "--prep" then do
    let raw ← flagValue flag.2 flag.1 "build" line
    .ok { acc with prepCmd := some raw }
  else if flag.1 = "--workdir" then do
    let raw ← flagValue flag.2 flag.1 "build" line
    .ok { acc with workdir := some raw }
  else if flag.1 = "--artifacts" then do
    let raw ← flagValue flag.2 flag.1 "build" line
    .ok { acc with artifacts := acc.artifacts ++ commaList raw }
  else if flag.1 = "--install-dirs" then do
    let raw ← flagValue flag.2 flag.1 "build" line
    .ok { acc with installDirs := acc.installDirs ++ commaList raw }
  else if flag.1 = "--units" then do
    let raw ← flagValue flag.2 flag.1 "build" line
    .ok { acc with units := acc.units ++ commaList raw }
  else if flag.1 = "--version-flag" then do
    let raw ← flagValue flag.2 flag.1 "build" line
    .ok { acc with versionFlag := raw }
  else if flag.1 = "--min-free-gb" then do
    let raw ← flagValue flag.2 flag.1 "build" line
    let gb ← ofOption (Str.parseU64 raw) line "build" s!"invalid `--min-free-gb` `{raw}`"
    .ok { acc with minFreeGb := gb }
  else unknownFlag "build" flag.1 line

/-- The first unsafe unit is reported as it was written. -/
def safeUnits (units : List String) (line : Nat) : Except ParseError (List String) :=
  match units.find? fun u => !isValidUnitName (normalizeUnit u) with
  | none => .ok (units.map normalizeUnit)
  | some unit => invalidDirective line "build" s!"unsafe unit name `{unit}`"

def parseBuild (m : StepMeta) (payload : String) (line : Nat) :
    Except ParseError (String × BuildStep) := do
  let (positional, flags) ← splitFlags payload [] "build" line
  let args ← flags.foldlM (buildFlag line) ⟨none, none, none, none, [], [], [], "", 8⟩
  let (repo, target) ← twoWords positional line "build"
    ("expected `<repo-url> @<target> --ref REF --build CMD --artifacts A… --install-dirs D… " ++
      "[--prep CMD] [--workdir DIR]`")
  ensure (repo ≠ "") line "build" "missing repo url"
  let target ← requireTarget target "build" line
  let gitRef ← ofOption args.gitRef line "build" "missing `--ref`"
  let buildCmd ← ofOption args.buildCmd line "build" "missing `--build`"
  ensure (!args.artifacts.isEmpty) line "build" "missing `--artifacts`"
  ensure (!args.installDirs.isEmpty) line "build" "missing `--install-dirs`"
  absolutePaths args.workdir.toList line "build"
    fun p => s!"the workdir must be absolute (got `{p}`)"
  absolutePaths args.installDirs line "build"
    fun p => s!"install dirs must be absolute (got `{p}`)"
  let units ← safeUnits args.units line
  .ok (target, ⟨m.name, .mkAt target line, repo, args.workdir, gitRef, buildCmd, args.prepCmd,
    args.artifacts, args.installDirs, units, args.versionFlag, args.minFreeGb, m.timeout⟩)

def toolPart (line : Nat) (tools : List String) (part : String) :
    Except ParseError (List String) := do
  ensure (isKnownTool part) line "toolchain"
    (s!"unknown tool `{part}` (expected os, aur, rustup, cargo, go, npm, pipx, uv, foundry, " ++
      "proto, gh)")
  .ok (if part ∈ tools then tools else tools ++ [part])

def toolWord (line : Nat) (acc : List String × Option String) (token : String) :
    Except ParseError (List String × Option String) :=
  match Str.stripPrefix token "@" with
  | some named => do
    let target ← explicitTarget "toolchain" line acc.2 named
    .ok (acc.1, target)
  | none => do
    let tools ← (commaList token).foldlM (toolPart line) acc.1
    .ok (tools, acc.2)

def parseToolchain (m : StepMeta) (payload : String) (line : Nat) :
    Except ParseError (String × ToolchainStep) := do
  let (tools, explicit) ← (splitWords payload).foldlM (toolWord line) ([], none)
  ensure (!tools.isEmpty) line "toolchain" "missing tool list"
  let target ← resolveAssertTarget m.lastTarget explicit "toolchain" line
  .ok (target, ⟨m.name, .mkAt target line, tools, m.timeout⟩)

def imageFlag (line : Nat) (_ : Bool) (flag : Flag) : Except ParseError Bool :=
  if flag.1 = "--prune" then do
    ensure flag.2.isNone line "image" "`--prune` takes no value"
    .ok true
  else unknownFlag "image" flag.1 line

def imageWord (line : Nat) (acc : List String × Option String) (token : String) :
    Except ParseError (List String × Option String) :=
  match Str.stripPrefix token "@" with
  | some named => do
    let target ← explicitTarget "image" line acc.2 named
    .ok (acc.1, target)
  | none => .ok (acc.1 ++ [token], acc.2)

def parseImage (m : StepMeta) (payload : String) (line : Nat) :
    Except ParseError (String × ImageStep) := do
  let (positional, flags) ← splitFlags payload ["--prune"] "image" line
  let prune ← flags.foldlM (imageFlag line) false
  let (images, explicit) ← positional.foldlM (imageWord line) ([], none)
  ensure (!images.isEmpty) line "image" "missing image"
  let target ← resolveAssertTarget m.lastTarget explicit "image" line
  .ok (target, ⟨m.name, .mkAt target line, images, prune, m.timeout⟩)

end Steps
end Shellflow
