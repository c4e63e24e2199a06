import Shellflow.Lib.Assoc
import Shellflow.Dsl.Heredoc
import Shellflow.Dsl.Payload

/-! The line scanner: script lines gather in a block, and every directive but `@export` ends the
block before it does its own work. -/
namespace Shellflow

inductive Mode
  | localMode
  | remoteMode
deriving DecidableEq, Repr

structure State where
  plan : ExecutionPlan
  mode : Mode
  target : String
  targetLine : Nat
  pending : List (List Char)
  pendingName : Option String
  pendingGuard : Option String
  pendingTimeout : Option Nat
  pendingExport : List ExportVar
  lastTarget : Option String
  groupLines : List (String × Nat)
  heredocs : HeredocTracker

namespace State

def new : State :=
  ⟨.empty, .localMode, "", 0, [], none, none, none, [], none, [], ⟨[]⟩⟩

def hasExecutable (st : State) : Bool :=
  st.pending.any fun line =>
    let trimmed := Str.trimChars line
    !trimmed.isEmpty && trimmed.head? != some '#'

def withSteps (st : State) (steps : List Step) : State :=
  { st with plan := { st.plan with steps := steps } }

/-- The lines of the block, each with a newline. -/
def blockScript (st : State) : String :=
  String.ofList (['\n'].intercalate st.pending ++ ['\n'])

def blockStep (st : State) : Step :=
  match st.mode with
  | .localMode =>
    .localBlock ⟨st.pendingName, st.blockScript, st.pendingGuard, st.pendingTimeout,
      st.pendingExport, st.plan.env⟩
  | .remoteMode =>
    .remote ⟨st.pendingName, .mkAt st.target st.targetLine, st.blockScript, st.pendingGuard,
      st.pendingTimeout, st.plan.env⟩

/-- A block without an executable line is dropped, and its label, guard, timeout and exports
stay for the next one. -/
def flush (st : State) : State :=
  if st.hasExecutable then
    { st.withSteps (st.plan.steps ++ [st.blockStep]) with
      pending := []
      pendingName := none
      pendingGuard := none
      pendingTimeout := none
      pendingExport := []
      lastTarget := if st.mode = .remoteMode then some st.target else st.lastTarget }
  else { st with pending := [] }

def stepMeta (st : State) : StepMeta := ⟨st.pendingName, st.pendingTimeout, st.lastTarget⟩

/-- The label and the timeout are used up by a step. -/
def takeMeta (st : State) : State := { st with pendingName := none, pendingTimeout := none }

/-- A new step at the end of the plan. -/
def emit (st : State) (target : String) (step : Step) : State :=
  { st.takeMeta.withSteps (st.plan.steps ++ [step]) with lastTarget := some target }

/-- A changed last step, with the state otherwise left as it is. -/
def replaceLast (st : State) (step : Step) : State :=
  st.takeMeta.withSteps (st.plan.steps.dropLast ++ [step])

/-- The last step, when an assertion with these options joins it. -/
def assertMergeable (st : State) (target : String) : Option AssertStep :=
  match st.plan.steps.getLast? with
  | some (.assert existing) =>
    if st.pendingName.isNone && existing.target.text == target &&
        existing.timeout == st.pendingTimeout then some existing
    else none
  | _ => none

def pushAssertion (st : State) (target : String) (line : Nat) (check : Assertion) : State :=
  match st.assertMergeable target with
  | some existing =>
    st.replaceLast (.assert { existing with
      checks := existing.checks ++ [check]
      checks_ne := List.append_ne_nil_of_left_ne_nil existing.checks_ne [check] })
  | none =>
    st.emit target (.assert ⟨st.pendingName, .mkAt target line, [check], st.pendingTimeout,
      List.cons_ne_nil check []⟩)

/-- The last step, when a copy with these options joins it. -/
def copyMergeable (st : State) (c : CopyDirective) : Option CopyStep :=
  match st.plan.steps.getLast? with
  | some (.copy existing) =>
    if st.pendingName.isNone && existing.target.text == c.target &&
        existing.delete == c.delete && existing.excludes == c.excludes &&
        existing.timeout == st.pendingTimeout && existing.env == st.plan.env then some existing
    else none
  | _ => none

def pushCopy (st : State) (c : CopyDirective) (line : Nat) : State :=
  match st.copyMergeable c with
  | some existing =>
    { st.replaceLast (.copy { existing with
        entries := existing.entries ++ [c.entry]
        entries_ne := List.append_ne_nil_of_left_ne_nil existing.entries_ne [c.entry] }) with
      lastTarget := some c.target }
  | none =>
    st.emit c.target (.copy ⟨st.pendingName, [c.entry], .mkAt c.target line, c.delete, c.excludes,
      st.pendingTimeout, st.plan.env, List.cons_ne_nil c.entry []⟩)

/-- A directive that runs on hosts: no guard, then its own payload. -/
def addStep {α : Type} (directive : String) (wrap : α → Step)
    (parse : StepMeta → String → Nat → Except ParseError (String × α)) (st : State)
    (payload : String) (line : Nat) : Except ParseError State := do
  rejectGuard st.pendingGuard.isSome directive line
  let (target, step) ← parse st.stepMeta payload line
  .ok (st.emit target (wrap step))

def addAssertion (directive : String)
    (parse : String → Nat → Except ParseError (Option String × Assertion)) (st : State)
    (payload : String) (line : Nat) : Except ParseError State := do
  rejectGuard st.pendingGuard.isSome directive line
  let (explicit, check) ← parse payload line
  let target ← resolveAssertTarget st.lastTarget explicit directive line
  .ok (st.pushAssertion target line check)

def addCopy (st : State) (payload : String) (line : Nat) : Except ParseError State := do
  rejectGuard st.pendingGuard.isSome "copy" line
  let c ← parseCopy payload line
  .ok (st.pushCopy c line)

def addWait := addStep "wait_active" .wait parseWait
def addReload := addStep "reload" .reload parseReload
def addService := addStep "service" .service parseService
def addInstall := addStep "install" .install parseInstall
def addBackup := addStep "backup" .backup parseBackup
def addCredstore := addStep "credstore" .credstore parseCredstore
def addUnitInventory := addStep "unit_inventory" .unitInventory parseUnitInventory
def addHelper := addStep "helper" .helper parseHelper
def addRelease := addStep "release" .release parseRelease
def addBuild := addStep "build" .build parseBuild
def addToolchain := addStep "toolchain" .toolchain parseToolchain
def addImage := addStep "image" .image parseImage

def addAssert := addAssertion "assert" parseAssert
def addAssertHealth := addAssertion "assert_health" parseAssertHealth
def addAssertPort := addAssertion "assert_port" parseAssertPort
def addAssertPortFree := addAssertion "assert_port_free" parseAssertPortFree
def addAssertEnabled := addAssertion "assert_enabled" parseAssertEnabled
def addAssertRendered := addAssertion "assert_rendered" parseAssertRendered
def addAssertNoLeak := addAssertion "assert_no_leak" parseAssertNoLeak
def addAssertDigest := addAssertion "assert_digest" parseAssertDigest
def addAssertCredstore := addAssertion "assert_credstore" parseAssertCredstore

def serverSpec (spec : String) (line : Nat) : Except ParseError SshSpec :=
  match SshSpec.parse spec with
  | .error (.invalidSshSpec _ spec reason) => .error (.invalidSshSpec line spec reason)
  | parsed => parsed

/-- A name and one more word. -/
def nameAndWord (payload directive what : String) (line : Nat) :
    Except ParseError (String × String) := do
  let words := splitWords payload
  let name ← ofOption words.head? line directive "missing name"
  ensure (isValidAliasName name) line directive
    s!"invalid {directive} name `{name}` (allowed: letters, digits, `_`, `-`, `.`)"
  let word ← ofOption words[1]? line directive s!"missing {what} for `{name}`"
  ensure (words.length ≤ 2) line directive s!"too many arguments for `{name}`"
  .ok (name, word)

def hasKey {α : Type} (l : List (String × α)) (name : String) : Bool := l.any fun p => p.1 == name

def nameLe (a b : String) : Bool := Str.leChars a.toList b.toList

def parseServer (plan : ExecutionPlan) (payload : String) (line : Nat) :
    Except ParseError (String × SshSpec) := do
  let (name, spec) ← nameAndWord payload "server" "ssh spec" line
  if hasKey plan.servers name then .error (.duplicateServer line name)
  else do
    let parsed ← serverSpec spec line
    .ok (name, parsed)

def declareServer (st : State) (payload : String) (line : Nat) : Except ParseError State := do
  let server ← parseServer st.plan payload line
  .ok { st with plan := { st.plan with
    servers := Assoc.insertSorted nameLe server st.plan.servers } }

def groupMember (name : String) (line : Nat) (members : List String) (member : String) :
    Except ParseError (List String) := do
  ensure (isValidAliasName member) line "group" s!"invalid member `{member}` in group `{name}`"
  .ok (Assoc.pushNew members member)

def parseGroup (plan : ExecutionPlan) (payload : String) (line : Nat) :
    Except ParseError (String × List String) := do
  let (name, members) ← nameAndWord payload "group" "members" line
  ensure (!hasKey plan.servers name) line "group" s!"group `{name}` collides with a server name"
  ensure (!hasKey plan.groups name) line "group" s!"group `{name}` is already defined"
  let raw := commaList members
  ensure (!raw.isEmpty) line "group" s!"no members for `{name}`"
  ensure (name ∉ raw) line "group" s!"group `{name}` cannot contain itself"
  let members ← raw.foldlM (groupMember name line) []
  .ok (name, members)

def declareGroup (st : State) (payload : String) (line : Nat) : Except ParseError State := do
  let group ← parseGroup st.plan payload line
  .ok { st with
    plan := { st.plan with groups := Assoc.insertSorted nameLe group st.plan.groups }
    groupLines := st.groupLines ++ [(group.1, line)] }

def parseEnv (payload : String) (line : Nat) : Except ParseError EnvEntry := do
  let payload := Str.trim payload
  ensure (payload ≠ "") line "env" "missing variable"
  match Str.splitOnce payload "=" with
  | some (key, value) => do
    let key := Str.trim key
    ensure (isValidVarName key) line "env" s!"invalid variable name `{key}`"
    .ok (.literal key value)
  | none => do
    ensure (isValidVarName payload) line "env" s!"invalid variable name `{payload}`"
    .ok (.passthrough payload)

def declareEnv (st : State) (payload : String) (line : Nat) : Except ParseError State := do
  let entry ← parseEnv payload line
  .ok { st with plan := { st.plan with env := st.plan.env ++ [entry] } }

def secretsIdentity (line : Nat) : Option String → List String → Except ParseError (Option String)
  | identity, [] => .ok identity
  | _, [token] =>
    invalidDirective line "secrets"
      (if token = "--identity" then "`--identity` requires a path" else s!"unexpected token `{token}`")
  | _, token :: value :: rest =>
    if token = "--identity" then secretsIdentity line (some value) rest
    else invalidDirective line "secrets" s!"unexpected token `{token}`"

def parseSecrets (payload : String) (line : Nat) : Except ParseError SecretEntry := do
  let words := splitWords payload
  let file ← ofOption words.head? line "secrets" "missing encrypted file path"
  let identity ← secretsIdentity line none words.tail
  .ok ⟨file, identity⟩

def declareSecrets (st : State) (payload : String) (line : Nat) : Except ParseError State := do
  let entry ← parseSecrets payload line
  .ok { st with plan := { st.plan with secrets := st.plan.secrets ++ [entry] } }

def exportFlag (line : Nat) (_ : Unit) (flag : Flag) : Except ParseError Unit :=
  if flag.1 = "--public" then .ok () else unknownFlag "export" flag.1 line

def exportNames (positional : List String) (line : Nat) : Except ParseError String :=
  match positional with
  | [names] => .ok names
  | [] => invalidDirective line "export" "missing variable name(s)"
  | _ :: extra :: _ => invalidDirective line "export" s!"unexpected token `{extra}`"

def parseExport (payload : String) (line : Nat) : Except ParseError (List ExportVar) := do
  let (positional, flags) ← splitFlags payload ["--public"] "export" line
  flags.foldlM (exportFlag line) ()
  let names ← exportNames positional line
  let names := commaList names
  ensure (!names.isEmpty) line "export" "missing variable name(s)"
  match names.find? fun v => !isValidVarName v with
  | some bad => invalidDirective line "export" s!"invalid variable name `{bad}`"
  | none => .ok (names.map fun v => ⟨v, !flags.isEmpty⟩)

/-- The variables belong to the pending block, or else to the last step when it is a local one. -/
def declareExport (st : State) (payload : String) (line : Nat) : Except ParseError State := do
  let vars ← parseExport payload line
  if st.hasExecutable then
    if st.mode = .localMode then .ok { st with pendingExport := st.pendingExport ++ vars }
    else .error (.exportNotAfterLocal line)
  else
    match st.plan.steps.getLast? with
    | some (.localBlock s) =>
      .ok (st.withSteps (st.plan.steps.dropLast ++ [.localBlock { s with
        exports := s.exports ++ vars }]))
    | _ => .error (.exportNotAfterLocal line)

def workdirFlag (line : Nat) (_ : String) (flag : Flag) : Except ParseError String :=
  if flag.1 = "--prefix" then do
    let raw ← flagValue flag.2 flag.1 "workdir" line
    ensure (raw ≠ "" && Str.all raw fun c => isAsciiAlphanumeric c || c == '-' || c == '_') line
      "workdir" s!"invalid workdir prefix `{raw}`"
    .ok raw
  else unknownFlag "workdir" flag.1 line

def parseWorkdir (payload : String) (line : Nat) : Except ParseError Workdir := do
  let (_, flags) ← splitFlags payload [] "workdir" line
  let name ← flags.foldlM (workdirFlag line) "shellflow"
  .ok ⟨name⟩

def addWorkdir (st : State) (payload : String) (line : Nat) : Except ParseError State := do
  let workdir ← parseWorkdir payload line
  ensure st.plan.workdir.isNone line "workdir" "the workdir is already declared"
  .ok { st with plan := { st.plan with workdir := some workdir } }

/-- The script lines that follow run on the local machine. -/
def localLines (st : State) : State := { st with mode := .localMode, target := "", targetLine := 0 }

def enterLocal (st : State) (_ : String) (_ : Nat) : Except ParseError State := .ok st.localLines

def enterRemote (st : State) (payload : String) (line : Nat) : Except ParseError State := do
  let target ← requireTarget payload "remote" line
  .ok { st with mode := .remoteMode, target := target, targetLine := line }

def copyFiles (st : State) (payload : String) (line : Nat) : Except ParseError State :=
  st.localLines.addCopy payload line

def setTimeout (st : State) (payload : String) (line : Nat) : Except ParseError State := do
  let seconds ← ofOption (Str.parseU64 (Str.trim payload)) line "timeout"
    s!"invalid seconds `{payload}`"
  ensure (seconds ≠ 0) line "timeout" "must be greater than zero"
  .ok { st with pendingTimeout := some seconds }

def setName (st : State) (payload : String) (line : Nat) : Except ParseError State := do
  ensure (Str.trim payload ≠ "") line "name" "missing label"
  .ok { st with pendingName := some (Str.trim payload) }

def setGuard (st : State) (payload : String) (line : Nat) : Except ParseError State := do
  ensure (Str.trim payload ≠ "") line "only_if" "missing command"
  .ok { st with pendingGuard := some (Str.trim payload) }

abbrev Handler := State → String → Nat → Except ParseError State

/-- What each keyword does. -/
def handlers : List (String × Handler) :=
  [("server", declareServer), ("group", declareGroup), ("env", declareEnv),
    ("secrets", declareSecrets), ("local", enterLocal), ("remote", enterRemote),
    ("copy", copyFiles), ("wait_active", addWait), ("reload", addReload), ("assert", addAssert),
    ("assert_health", addAssertHealth), ("assert_port", addAssertPort),
    ("assert_port_free", addAssertPortFree), ("assert_enabled", addAssertEnabled),
    ("assert_rendered", addAssertRendered), ("service", addService), ("install", addInstall),
    ("backup", addBackup), ("credstore", addCredstore), ("assert_no_leak", addAssertNoLeak),
    ("assert_digest", addAssertDigest), ("assert_credstore", addAssertCredstore),
    ("unit_inventory", addUnitInventory), ("helper", addHelper), ("release", addRelease),
    ("build", addBuild), ("toolchain", addToolchain), ("image", addImage),
    ("workdir", addWorkdir), ("export", declareExport), ("timeout", setTimeout),
    ("name", setName), ("only_if", setGuard)]

/-- The state a directive works on: every one but `@export` closes the block before it. -/
def beforeDirective (st : State) (keyword : String) : State :=
  if keyword = "export" then st else st.flush

def applyDirective (st : State) (keyword payload : String) (line : Nat) :
    Except ParseError State :=
  match handlers.lookup keyword with
  | some handler => handler (st.beforeDirective keyword) payload line
  | none => .error (.unknownDirective line keyword)

def stripCr (raw : List Char) : List Char :=
  if raw.getLast? = some '\r' then raw.dropLast else raw

/-- One line of the script: the body of a here-document, a directive, or script text. -/
def scanLine (st : State) (numbered : List Char × Nat) : Except ParseError State :=
  let line := stripCr numbered.1
  let body := st.heredocs.consumeBody line
  if body.2 then .ok { st with heredocs := body.1, pending := st.pending ++ [line] }
  else
    match directive line with
    | some (keyword, payload) => st.applyDirective keyword payload numbered.2
    | none =>
      .ok { st with
        heredocs := st.heredocs.openIn line numbered.2
        pending := st.pending ++ [line] }

/-- The first group member that is no server. -/
def unknownMember (st : State) : Option ParseError :=
  st.plan.groups.findSome? fun group =>
    (group.2.find? fun member => !hasKey st.plan.servers member).map fun member =>
      .unknownGroupMember ((st.groupLines.lookup group.1).getD 0) group.1 member

/-- The end of the script. -/
def finish (st : State) : Except ParseError ExecutionPlan :=
  match st.heredocs.unterminated with
  | some (line, heredoc) => .error (.unterminatedHeredoc line (String.ofList heredoc.tag))
  | none =>
    match st.flush.unknownMember with
    | some e => .error e
    | none => .ok st.flush.plan

end State

def numberedLines (input : String) : List (List Char × Nat) :=
  (Str.linesChars input.toList).zipIdx 1

def parseScript (input : String) : Except ParseError ExecutionPlan := do
  let st ← (numberedLines input).foldlM State.scanLine .new
  st.finish

end Shellflow
