import Shellflow.Lib.Fallible
import Shellflow.Dsl.Parser

/-! The errors of a directive point at its line. One lemma for each function of the parser, in the
order the parser has them; the table of the handlers comes last. -/
namespace Shellflow
open Fallible

/-- An error about the directive on the line. -/
def Located (line : Nat) : ParseError → Prop
  | .invalidSshSpec l _ _ => l = line
  | .duplicateServer l _ => l = line
  | .invalidDirective l _ _ => l = line
  | .unknownDirective l _ => l = line
  | .exportNotAfterLocal l => l = line
  | .unknownGroupMember _ _ _ | .unterminatedHeredoc _ _ | .emptyTarget _ => False

section Words
variable {α : Type} {line : Nat} {name reason raw : String}

@[simp] theorem located_invalidDirective :
    Raises (Located line) (invalidDirective line name reason : Except ParseError α) :=
  raises_error.mpr rfl

@[simp] theorem located_unknownFlag {flag : String} :
    Raises (Located line) (unknownFlag name flag line : Except ParseError α) := by
  simp [unknownFlag]

@[simp] theorem located_ensure {ok : Bool} : Raises (Located line) (ensure ok line name reason) := by
  simp [ensure]

@[simp] theorem located_ofOption {x : Option α} :
    Raises (Located line) (ofOption x line name reason) := by
  cases x <;> simp [ofOption]

theorem located_splitFlagsFrom {bools positional words : List String} {flags : List Flag} :
    Raises (Located line) (splitFlagsFrom bools name line positional flags words) := by
  fun_induction splitFlagsFrom bools name line positional flags words <;> simp_all

@[simp] theorem located_splitFlags {bools : List String} :
    Raises (Located line) (splitFlags raw bools name line) := located_splitFlagsFrom

@[simp] theorem located_flagValue {value : Option String} {flag : String} :
    Raises (Located line) (flagValue value flag name line) := by
  cases value <;> simp [flagValue]

@[simp] theorem located_requireTarget : Raises (Located line) (requireTarget raw name line) := by
  simp [requireTarget]

@[simp] theorem located_parseSecs : Raises (Located line) (parseSecs raw name line) := by
  unfold parseSecs
  split <;> simp

@[simp] theorem located_parseMode : Raises (Located line) (parseMode raw name line) := by
  unfold parseMode
  simp only [raises_ite, located_invalidDirective, implies_true, true_and]
  intro _
  split <;> simp

@[simp] theorem located_parseOwner : Raises (Located line) (parseOwner raw name line) := by
  simp [parseOwner]

@[simp] theorem located_rejectGuard {hasGuard : Bool} :
    Raises (Located line) (rejectGuard hasGuard name line) := by
  simp [rejectGuard]

@[simp] theorem located_resolveAssertTarget {lastTarget explicit : Option String} :
    Raises (Located line) (resolveAssertTarget lastTarget explicit name line) := by
  cases explicit <;> simp [resolveAssertTarget]

@[simp] theorem located_explicitTarget {target : Option String} :
    Raises (Located line) (explicitTarget name line target raw) := by
  simp [explicitTarget]

@[simp] theorem located_safeUnit : Raises (Located line) (safeUnit raw name line) := by
  simp [safeUnit]

@[simp] theorem located_safeService : Raises (Located line) (safeService raw name line) := by
  simp [safeService]

@[simp] theorem located_twoWords {positional : List String} :
    Raises (Located line) (twoWords positional line name reason) := by
  unfold twoWords
  split <;> simp

@[simp] theorem located_absolutePaths {paths : List String} {reason : String → String} :
    Raises (Located line) (absolutePaths paths line name reason) := by
  unfold absolutePaths
  split <;> simp

end Words

section Flags
variable {line : Nat} {flag : Flag}

@[simp] theorem located_copyFlag {acc : Bool × List String} :
    Raises (Located line) (copyFlag line acc flag) := by
  simp [copyFlag]

@[simp] theorem located_noLeakFlag {acc : Option Nat} :
    Raises (Located line) (noLeakFlag line acc flag) := by
  simp only [noLeakFlag, raises_ite, raises_bind, located_flagValue, located_unknownFlag,
    implies_true, true_and, and_true]
  intro _ raw _
  split <;> simp

@[simp] theorem located_digestFlag {acc : Option String × Option String} :
    Raises (Located line) (digestFlag line acc flag) := by
  simp [digestFlag]

@[simp] theorem located_waitFlag {acc : Option Nat} :
    Raises (Located line) (waitFlag line acc flag) := by
  simp [waitFlag]

@[simp] theorem located_reloadFlag {acc : TimedFlags} :
    Raises (Located line) (reloadFlag line acc flag) := by
  simp [reloadFlag]

@[simp] theorem located_serviceFlag {acc : ServiceFlags} :
    Raises (Located line) (serviceFlag line acc flag) := by
  simp [serviceFlag]

@[simp] theorem located_installFlag {acc : InstallFlags} :
    Raises (Located line) (installFlag line acc flag) := by
  simp [installFlag]

@[simp] theorem located_keepCount {raw : String} : Raises (Located line) (keepCount raw line) := by
  unfold keepCount
  split <;> simp

@[simp] theorem located_backupFlag {acc : BackupFlags} :
    Raises (Located line) (backupFlag line acc flag) := by
  simp [backupFlag]

@[simp] theorem located_credentialKey {acc : List String} {key : String} :
    Raises (Located line) (credentialKey line acc key) := by
  simp [credentialKey]

@[simp] theorem located_credstoreFlag {acc : List String} :
    Raises (Located line) (credstoreFlag line acc flag) := by
  simp [credstoreFlag, raises_foldlM]

@[simp] theorem located_helperFlag {acc : HelperFlags} :
    Raises (Located line) (helperFlag line acc flag) := by
  simp [helperFlag]

@[simp] theorem located_releaseFlag {acc : ReleaseFlags} :
    Raises (Located line) (releaseFlag line acc flag) := by
  simp [releaseFlag]

@[simp] theorem located_buildFlag {acc : BuildFlags} :
    Raises (Located line) (buildFlag line acc flag) := by
  simp [buildFlag]

@[simp] theorem located_imageFlag {acc : Bool} :
    Raises (Located line) (imageFlag line acc flag) := by
  simp [imageFlag]

@[simp] theorem located_exportFlag {acc : Unit} :
    Raises (Located line) (State.exportFlag line acc flag) := by
  simp [State.exportFlag]

@[simp] theorem located_workdirFlag {acc : String} :
    Raises (Located line) (State.workdirFlag line acc flag) := by
  simp [State.workdirFlag]

end Flags

section Tokens
variable {line : Nat} {token : String}

@[simp] theorem located_assertWord {acc : AssertWords} :
    Raises (Located line) (assertWord line acc token) := by
  unfold assertWord
  split <;> simp

@[simp] theorem located_expectedState {raw : Option String} :
    Raises (Located line) (expectedState raw line) := by
  unfold expectedState
  split <;> simp

@[simp] theorem located_statusCode {acc : List String} :
    Raises (Located line) (statusCode line acc token) := by
  simp [statusCode]

@[simp] theorem located_healthFlag {acc : HealthArgs} {value : String} :
    Raises (Located line) (healthFlag line acc token value) := by
  simp [healthFlag, raises_foldlM]

@[simp] theorem located_healthWord {acc : HealthArgs} :
    Raises (Located line) (healthWord line acc token) := by
  simp only [healthWord, raises_ite, located_unknownFlag, implies_true, true_and]
  intro _
  split <;> simp

@[simp] theorem located_healthFrom {acc : HealthArgs} {words : List String} :
    Raises (Located line) (healthFrom line acc words) := by
  fun_induction healthFrom line acc words <;> simp_all

@[simp] theorem located_portPart {directive part : String} {ports : List Nat} :
    Raises (Located line) (portPart directive line ports part) := by
  unfold portPart
  split <;> simp

@[simp] theorem located_portWord {directive : String} {udpFlag : Bool} {acc : PortWords} :
    Raises (Located line) (portWord directive udpFlag line acc token) := by
  simp only [portWord, raises_ite, raises_ok, implies_true, true_and]
  intro _
  split <;> simp [raises_foldlM]

@[simp] theorem located_parsePortWords {directive payload : String} {udpFlag : Bool} :
    Raises (Located line) (parsePortWords directive udpFlag payload line) := by
  simp [parsePortWords, raises_foldlM]

@[simp] theorem located_renderedWord {acc : Option String × Option String} :
    Raises (Located line) (renderedWord line acc token) := by
  unfold renderedWord
  split <;> simp

@[simp] theorem located_enabledWord {acc : AssertWords} :
    Raises (Located line) (enabledWord line acc token) := by
  unfold enabledWord
  split <;> simp

@[simp] theorem located_safeUnits {units : List String} :
    Raises (Located line) (safeUnits units line) := by
  unfold safeUnits
  split <;> simp

@[simp] theorem located_toolPart {tools : List String} :
    Raises (Located line) (toolPart line tools token) := by
  simp [toolPart]

@[simp] theorem located_toolWord {acc : List String × Option String} :
    Raises (Located line) (toolWord line acc token) := by
  unfold toolWord
  split <;> simp [raises_foldlM]

@[simp] theorem located_imageWord {acc : List String × Option String} :
    Raises (Located line) (imageWord line acc token) := by
  unfold imageWord
  split <;> simp

end Tokens

section Payloads
variable {payload : String} {line : Nat} {m : StepMeta}

@[simp] theorem located_parseCopy : Raises (Located line) (parseCopy payload line) := by
  simp [parseCopy, raises_foldlM]

@[simp] theorem located_parseAssert : Raises (Located line) (parseAssert payload line) := by
  simp [parseAssert, raises_foldlM]

@[simp] theorem located_parseAssertHealth :
    Raises (Located line) (parseAssertHealth payload line) := by
  simp [parseAssertHealth]

@[simp] theorem located_parseAssertPort : Raises (Located line) (parseAssertPort payload line) := by
  simp [parseAssertPort]

@[simp] theorem located_parseAssertPortFree :
    Raises (Located line) (parseAssertPortFree payload line) := by
  simp [parseAssertPortFree]

@[simp] theorem located_parseAssertRendered :
    Raises (Located line) (parseAssertRendered payload line) := by
  simp [parseAssertRendered, raises_foldlM]

@[simp] theorem located_parseAssertNoLeak :
    Raises (Located line) (parseAssertNoLeak payload line) := by
  simp [parseAssertNoLeak, raises_foldlM]

@[simp] theorem located_parseAssertDigest :
    Raises (Located line) (parseAssertDigest payload line) := by
  simp [parseAssertDigest, raises_foldlM]

@[simp] theorem located_parseAssertCredstore :
    Raises (Located line) (parseAssertCredstore payload line) := by
  simp [parseAssertCredstore]

@[simp] theorem located_parseAssertEnabled :
    Raises (Located line) (parseAssertEnabled payload line) := by
  simp [parseAssertEnabled, raises_foldlM]

@[simp] theorem located_parseWait : Raises (Located line) (parseWait m payload line) := by
  simp [parseWait, raises_foldlM]

@[simp] theorem located_parseReload : Raises (Located line) (parseReload m payload line) := by
  simp [parseReload, raises_foldlM]

@[simp] theorem located_parseService : Raises (Located line) (parseService m payload line) := by
  simp [parseService, raises_foldlM]

@[simp] theorem located_parseInstall : Raises (Located line) (parseInstall m payload line) := by
  simp [parseInstall, raises_foldlM]

@[simp] theorem located_parseBackup : Raises (Located line) (parseBackup m payload line) := by
  simp [parseBackup, raises_foldlM]

@[simp] theorem located_parseCredstore : Raises (Located line) (parseCredstore m payload line) := by
  simp [parseCredstore, raises_foldlM]

@[simp] theorem located_parseUnitInventory :
    Raises (Located line) (parseUnitInventory m payload line) := by
  simp [parseUnitInventory]

@[simp] theorem located_parseHelper : Raises (Located line) (parseHelper m payload line) := by
  simp [parseHelper, raises_foldlM]

@[simp] theorem located_parseRelease : Raises (Located line) (parseRelease m payload line) := by
  simp [parseRelease, raises_foldlM]

@[simp] theorem located_parseBuild : Raises (Located line) (parseBuild m payload line) := by
  simp [parseBuild, raises_foldlM]

@[simp] theorem located_parseToolchain : Raises (Located line) (parseToolchain m payload line) := by
  simp [parseToolchain, raises_foldlM]

@[simp] theorem located_parseImage : Raises (Located line) (parseImage m payload line) := by
  simp [parseImage, raises_foldlM]

end Payloads

namespace SshSpec

/-- An error about the text of a destination; its line is not known yet. -/
def AboutSpec : ParseError → Prop
  | .invalidSshSpec l _ _ => l = 0
  | _ => False

variable {spec text : String}

@[simp] theorem aboutSpec_invalid {α : Type} {reason : String} :
    Raises AboutSpec (invalid spec reason : Except ParseError α) := raises_error.mpr rfl

@[simp] theorem aboutSpec_parsePort : Raises AboutSpec (parsePort text spec) := by
  unfold parsePort
  split <;> simp

@[simp] theorem aboutSpec_parseUser : Raises AboutSpec (parseUser spec) := by
  unfold parseUser
  split <;> simp

@[simp] theorem aboutSpec_parseBracketed : Raises AboutSpec (parseBracketed text spec) := by
  unfold parseBracketed
  split
  · simp
  · simp only [raises_ite, aboutSpec_invalid, raises_ok, implies_true, true_and]
    intro _ _
    split <;> simp

@[simp] theorem aboutSpec_parsePlain : Raises AboutSpec (parsePlain text spec) := by
  unfold parsePlain
  split <;> simp

theorem aboutSpec_parse : Raises AboutSpec (parse spec) := by
  simp only [parse, raises_bind, aboutSpec_parseUser, true_and]
  intro parsed _
  split <;> simp

end SshSpec

namespace State

section Declarations
variable {payload : String} {line : Nat} {plan : ExecutionPlan}

@[simp] theorem located_nameAndWord {name what : String} :
    Raises (Located line) (nameAndWord payload name what line) := by
  simp [nameAndWord]

theorem located_serverSpec {spec : String} : Raises (Located line) (serverSpec spec line) := by
  unfold serverSpec
  cases hparse : SshSpec.parse spec with
  | ok parsed => simp
  | error e =>
    have habout := SshSpec.aboutSpec_parse e hparse
    cases e with
    | invalidSshSpec l spec reason => exact raises_error.mpr rfl
    | _ => exact habout.elim

@[simp] theorem located_parseServer : Raises (Located line) (parseServer plan payload line) := by
  simp [parseServer, located_serverSpec, Located]

@[simp] theorem located_groupMember {name member : String} {members : List String} :
    Raises (Located line) (groupMember name line members member) := by
  simp [groupMember]

@[simp] theorem located_parseGroup : Raises (Located line) (parseGroup plan payload line) := by
  simp [parseGroup, raises_foldlM]

@[simp] theorem located_parseEnv : Raises (Located line) (parseEnv payload line) := by
  simp only [parseEnv, raises_bind, located_ensure, true_and]
  intro _ _
  split <;> simp

@[simp] theorem located_secretsIdentity {identity : Option String} {words : List String} :
    Raises (Located line) (secretsIdentity line identity words) := by
  fun_induction secretsIdentity line identity words <;> simp_all

@[simp] theorem located_parseSecrets : Raises (Located line) (parseSecrets payload line) := by
  simp [parseSecrets]

@[simp] theorem located_exportNames {positional : List String} :
    Raises (Located line) (exportNames positional line) := by
  unfold exportNames
  split <;> simp

@[simp] theorem located_parseExport : Raises (Located line) (parseExport payload line) := by
  simp only [parseExport, raises_bind, raises_foldlM, located_splitFlags, located_exportFlag,
    located_exportNames, located_ensure, implies_true, true_and]
  intro _ _ _ _ _ _ _ _
  split <;> simp

@[simp] theorem located_parseWorkdir : Raises (Located line) (parseWorkdir payload line) := by
  simp [parseWorkdir, raises_foldlM]

end Declarations

/-- The errors of a handler are about the line of its directive. -/
def LocatedHandler (handler : Handler) : Prop :=
  ∀ st payload line, Raises (Located line) (handler st payload line)

theorem located_declareServer : LocatedHandler declareServer := by
  simp [LocatedHandler, declareServer]

theorem located_declareGroup : LocatedHandler declareGroup := by
  simp [LocatedHandler, declareGroup]

theorem located_declareEnv : LocatedHandler declareEnv := by
  simp [LocatedHandler, declareEnv]

theorem located_declareSecrets : LocatedHandler declareSecrets := by
  simp [LocatedHandler, declareSecrets]

theorem located_declareExport : LocatedHandler declareExport := by
  intro st payload line
  simp only [declareExport, raises_bind, located_parseExport, raises_ite, raises_ok,
    raises_error, Located, implies_true, true_and]
  intro _ _ _
  split <;> simp [Located]

theorem located_addWorkdir : LocatedHandler addWorkdir := by
  simp [LocatedHandler, addWorkdir]

theorem located_enterLocal : LocatedHandler enterLocal := by
  simp [LocatedHandler, enterLocal]

theorem located_enterRemote : LocatedHandler enterRemote := by
  simp [LocatedHandler, enterRemote]

theorem located_copyFiles : LocatedHandler copyFiles := by
  simp [LocatedHandler, copyFiles, addCopy]

theorem located_setTimeout : LocatedHandler setTimeout := by
  simp [LocatedHandler, setTimeout]

theorem located_setName : LocatedHandler setName := by
  simp [LocatedHandler, setName]

theorem located_setGuard : LocatedHandler setGuard := by
  simp [LocatedHandler, setGuard]

theorem located_addStep {α : Type} {name : String} {wrap : α → Step}
    {parse : StepMeta → String → Nat → Except ParseError (String × α)}
    (hparse : ∀ m payload line, Raises (Located line) (parse m payload line)) :
    LocatedHandler (addStep name wrap parse) := by
  intro st payload line
  simp [addStep, hparse]

theorem located_addAssertion {name : String}
    {parse : String → Nat → Except ParseError (Option String × Assertion)}
    (hparse : ∀ payload line, Raises (Located line) (parse payload line)) :
    LocatedHandler (addAssertion name parse) := by
  intro st payload line
  simp [addAssertion, hparse]

theorem located_handlers : ∀ e ∈ handlers, LocatedHandler e.2 := by
  simp only [handlers, List.forall_mem_cons]
  refine ⟨located_declareServer, located_declareGroup, located_declareEnv, located_declareSecrets,
    located_enterLocal, located_enterRemote, located_copyFiles, ?wait, ?reload, ?assert, ?health,
    ?port, ?portFree, ?enabled, ?rendered, ?service, ?install, ?backup, ?credstore, ?noLeak,
    ?digest, ?assertCredstore, ?inventory, ?helper, ?release, ?build, ?toolchain, ?image,
    located_addWorkdir, located_declareExport, located_setTimeout, located_setName,
    located_setGuard, ?rest⟩
  case rest => exact fun e he => absurd he List.not_mem_nil
  case assert | health | port | portFree | enabled | rendered | noLeak | digest |
      assertCredstore =>
    exact located_addAssertion (by simp)
  all_goals exact located_addStep (by simp)

/-- An error while the lines are read is about a line that was read. -/
theorem located_applyDirective {st : State} {keyword payload : String} {line : Nat} :
    Raises (Located line) (st.applyDirective keyword payload line) := by
  unfold applyDirective
  cases hhandler : handlers.lookup keyword with
  | none => simp [Located]
  | some handler =>
    obtain ⟨before, after, htable, -⟩ := List.lookup_eq_some_iff.mp hhandler
    have hmem : (keyword, handler) ∈ handlers :=
      htable ▸ List.mem_append_right before List.mem_cons_self
    exact located_handlers (keyword, handler) hmem (st.beforeDirective keyword) payload line

theorem located_scanLine {st : State} {numbered : List Char × Nat} :
    Raises (Located numbered.2) (st.scanLine numbered) := by
  unfold scanLine
  simp only [raises_ite, raises_ok, implies_true, true_and]
  intro _
  split
  · exact located_applyDirective
  · exact raises_ok _

end State
end Shellflow
