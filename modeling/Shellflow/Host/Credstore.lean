import Shellflow.CredEnv.Install

/-! The credential store verb of the target: seal the store, then check it against the unit. -/
namespace Shellflow
open Process Process.Program

/-- A reason for a verb to fail. -/
inductive HostError
  | usage (message : String)
  | internal (message : String)
  | failed (message : String)
  | timedOut (message : String)
  | delegated (message : String) (code : Int)
deriving DecidableEq, Repr

def HostError.exitCode : HostError → Int
  | .usage _ | .internal _ => 1
  | .failed _ => 3
  | .timedOut _ => 4
  | .delegated _ code => code

def HostError.message : HostError → String
  | .usage message | .internal message | .failed message | .timedOut message
  | .delegated message _ => message

def validateUnit (unit : String) : Except HostError Unit :=
  if unit = "" then .error (.usage "empty unit name")
  else if isValidUnitName unit then .ok ()
  else .error (.usage s!"invalid unit name `{unit}`")

/-- The names in order, each once. -/
def nameSet (names : List String) : List String := sortNames names.eraseDups

inductive Disagreement
  | missingFromStore (keys : List String)
  | declaredButAbsent (keys : List String)
  | heldButUnimported (keys : List String)
deriving DecidableEq, Repr

def Disagreement.describe : Disagreement → String
  | .missingFromStore keys => "does not hold: " ++ Str.join ", " keys
  | .declaredButAbsent keys =>
    "the unit declares credential keys the store does not hold: " ++ Str.join ", " keys
  | .heldButUnimported keys => "holds keys no unit imports: " ++ Str.join ", " keys

/-- What was promised is checked before what the unit asks for, and that before what is unused. -/
def storeDisagreement (required declared held : List String) : Option Disagreement :=
  let missing := (nameSet required).filter fun key => key ∉ held
  let undeclared := declared.filter fun key => key ∉ held
  let unused := held.filter fun key => key ∉ declared
  if missing ≠ [] then some (.missingFromStore missing)
  else if undeclared ≠ [] then some (.declaredButAbsent undeclared)
  else if unused ≠ [] then some (.heldButUnimported unused)
  else none

def stripDirective (line key : String) : Option String :=
  (Str.stripPrefix (Str.trim line) key).map Str.trim

/-- The key a line of a unit file imports from the store. -/
def declaredKey (store line : String) : Option String :=
  match stripDirective line "LoadCredentialEncrypted=" with
  | none => none
  | some rest =>
    match Str.splitOnce rest ":" with
    | none => none
    | some (key, path) =>
      if Str.startsWith (Str.trim path) store then some (Str.trim key) else none

def declaredCredentialKeys (unitTexts : List String) (service : String) : List String :=
  let store := credstoreRoot ++ "/" ++ service ++ "/"
  nameSet (unitTexts.flatMap fun text => (Str.lines text).filterMap (declaredKey store))

section Verb

variable {W : Type} (m : Machine W) (ctx : ProcessContext)

def dirExistsElevated (path : String) (w : W) : Bool :=
  m.isDir path w || !ctx.isRoot && m.sudoTestDir path w

def listDirElevated (path : String) (w : W) : Except HostError (List String) :=
  match m.listDir path w with
  | .ok entries => .ok entries
  | .error error =>
    if ctx.isRoot then .error (.internal s!"cannot list `{path}`: {error}")
    else
      match m.sudoList path w with
      | .notStarted error => .error (.internal s!"cannot list `{path}`: {error}")
      | .failed stderr => .error (.failed s!"cannot list `{path}`: {Str.trim stderr}")
      | .names entries => .ok entries

/-- Hidden entries are bookkeeping. -/
def storeKeys (store : String) (w : W) : Except HostError (List String) := do
  let entries ← listDirElevated m ctx store w
  .ok (nameSet (entries.filter fun name => !Str.startsWith name "."))

/-- What the check of the store finds; it reads only. -/
def storeVerdict (service : String) (require : List String) (w : W) : Except HostError Unit :=
  let store := storePath service
  if dirExistsElevated m ctx store w then do
    let held ← storeKeys m ctx store w
    match storeDisagreement require (declaredCredentialKeys (m.unitTexts w) service) held with
    | none => .ok ()
    | some disagreement =>
      .error (.failed s!"the credential store {store}: {disagreement.describe}")
  else .error (.failed s!"the credential store {store} does not exist")

/-- A check that succeeds is written down. -/
def verifyCredstore (service : String) (require : List String) : Verb W HostError Unit := do
  match ← ask (storeVerdict m ctx service require) with
  | .error e => fail e
  | .ok () => act fun s => ((), { s with log := s.log ++ [.verified service require] })

structure CredstoreArgs where
  service : String
  require : List String

def credstore (args : CredstoreArgs) : Verb W HostError Unit :=
  match validateUnit args.service with
  | .error e => fail e
  | .ok () => do
    (credstoreInstall m ctx args.service).mapError fun error =>
      .internal s!"cannot seal the credential store: {error}"
    verifyCredstore m ctx args.service args.require

/-- The exit code of the verb's process. -/
def exitCode : Ended HostError Unit → Int
  | .returned _ => 0
  | .failed e => e.exitCode
  | .exited code => code

end Verb

/-- The check of this service and list of keys succeeded after everything that can change the
store. -/
def VerifiedLast (args : CredstoreArgs) (log : List Event) : Prop :=
  ∃ before after, log = before ++ .verified args.service args.require :: after ∧
    ∀ e ∈ after, e.IsVerified

section Theorems

variable {W : Type} (m : Machine W) (ctx : ProcessContext)

/-- The verb's process ends inside the installer, which handed over to one under sudo. -/
def HandsOverVerb (args : CredstoreArgs) (w : W) : Prop :=
  isValidUnitName args.service = true ∧ HandsOverInstall m ctx args.service w

theorem validateUnit_eq (unit : String) :
    validateUnit unit = .ok () ∧ isValidUnitName unit = true ∨
      (∃ message, validateUnit unit = .error (.usage message)) ∧ isValidUnitName unit = false := by
  unfold validateUnit
  by_cases hempty : unit = ""
  · rw [if_pos hempty, hempty]
    exact .inr ⟨⟨_, rfl⟩, by decide⟩
  · rw [if_neg hempty]
    cases hvalid : isValidUnitName unit with
    | true => exact .inl ⟨rfl, rfl⟩
    | false => exact .inr ⟨⟨_, rfl⟩, rfl⟩

theorem exitCode_internal (message : String) : (HostError.internal message).exitCode ≠ 0 :=
  Int.one_ne_zero

theorem exitCode_failed (message : String) : (HostError.failed message).exitCode ≠ 0 := by
  have hthree : (3 : Int) ≠ 0 := by decide
  exact hthree

theorem listDirElevated_exitCode {path : String} {w : W} {e : HostError}
    (h : listDirElevated m ctx path w = .error e) : e.exitCode ≠ 0 := by
  unfold listDirElevated at h
  split at h
  · cases h
  · split at h
    · cases h
      exact exitCode_internal _
    · split at h
      · cases h
        exact exitCode_internal _
      · cases h
        exact exitCode_failed _
      · cases h

/-- The errors of the check are no success. -/
theorem storeVerdict_exitCode {service : String} {require : List String} {w : W} {e : HostError}
    (h : storeVerdict m ctx service require w = .error e) : e.exitCode ≠ 0 := by
  unfold storeVerdict at h
  dsimp only at h
  split at h
  · unfold storeKeys at h
    cases hentries : listDirElevated m ctx (storePath service) w with
    | error e' =>
      rw [hentries] at h
      cases h
      exact listDirElevated_exitCode m ctx hentries
    | ok entries =>
      rw [hentries] at h
      dsimp only [Bind.bind, Except.bind] at h
      split at h
      · cases h
      · cases h
        exact exitCode_failed _
  · cases h
    exact exitCode_failed _

theorem ensures_verifyCredstore (service : String) (require : List String) (s : Run W) :
    Ensures (verifyCredstore m ctx service require) s
      ⟨fun _ s' => s'.log = s.log ++ [.verified service require],
        fun e _ => e.exitCode ≠ 0, fun _ _ => False⟩ := by
  unfold verifyCredstore ask
  rw [ensures_bind, ensures_act]
  dsimp only
  cases hverdict : storeVerdict m ctx service require s.world with
  | error e => exact storeVerdict_exitCode m ctx hverdict
  | ok _ => rfl

/-- The verb returns after a check, fails with a code of its own, or hands over. -/
theorem ensures_credstore (args : CredstoreArgs) (s : Run W) :
    Ensures (credstore m ctx args) s
      ⟨fun _ s' => VerifiedLast args s'.log ∧ ¬ HandsOverVerb m ctx args s.world,
        fun e _ => e.exitCode ≠ 0 ∧ ¬ HandsOverVerb m ctx args s.world,
        fun code s' => Quiet s s' ∧ HandsOverVerb m ctx args s.world ∧ code = 0⟩ := by
  unfold credstore
  cases validateUnit_eq args.service with
  | inr hinvalid =>
    obtain ⟨⟨message, hunit⟩, hvalid⟩ := hinvalid
    rw [hunit]
    exact ⟨Int.one_ne_zero, fun h => absurd (hvalid.symm.trans h.1) Bool.false_ne_true⟩
  | inl hvalid =>
    rw [hvalid.1]
    dsimp only
    rw [ensures_bind, ensures_mapError]
    refine (ensures_credstoreInstall args.service s).mono (fun _ s' h => ?_) (fun e s' h => ?_)
      fun code s' h => ⟨h.1, ⟨hvalid.2, h.2.1⟩, h.2.2⟩
    · refine (ensures_verifyCredstore m ctx args.service args.require s').mono
        (fun _ s'' hlog => ?_) (fun e _ he => ?_) fun _ _ hfalse => hfalse.elim
      · exact ⟨⟨s'.log, [], hlog, fun e he => absurd he List.not_mem_nil⟩, fun hover => h.2 hover.2⟩
      · exact ⟨he, fun hover => h.2 hover.2⟩
    · exact ⟨exitCode_internal _, fun hover => h.2 hover.2⟩

/-- A log without a check does not end in one. -/
theorem not_verifiedLast {args : CredstoreArgs} {w : W} {s : Run W} (h : Quiet ⟨w, []⟩ s) :
    ¬ VerifiedLast args s.log := by
  intro hlast
  obtain ⟨more, hlog, hquiet⟩ := h
  obtain ⟨before, after, hsplit, -⟩ := hlast
  rw [List.nil_append] at hlog
  have hmem : Event.verified args.service args.require ∈ more := by
    rw [← hlog, hsplit]
    simp
  exact hquiet _ hmem trivial

/-- A verb that ends with code 0 checked the store it left, exactly when it did not hand over to a
process under sudo. -/
theorem credstore_verified_iff (args : CredstoreArgs) (w : W) :
    (exitCode (credstore m ctx args ⟨w, []⟩).1 = 0 →
      VerifiedLast args (credstore m ctx args ⟨w, []⟩).2.log) ↔
        ¬ HandsOverVerb m ctx args w := by
  have hensures := ensures_credstore m ctx args ⟨w, []⟩
  unfold Ensures at hensures
  cases hrun : credstore m ctx args ⟨w, []⟩ with
  | mk ended s =>
    rw [hrun] at hensures
    cases ended with
    | returned _ => exact ⟨fun _ => hensures.2, fun _ _ => hensures.1⟩
    | failed e => exact ⟨fun _ => hensures.2, fun _ h => absurd h hensures.1⟩
    | exited code =>
      obtain ⟨hquiet, hover, hcode⟩ := hensures
      exact ⟨fun h => absurd (h hcode) (not_verifiedLast hquiet), fun h => absurd hover h⟩

/-- A target with a deploy user that may use sudo, where every command succeeds. -/
def sudoMachine : Machine Unit where
  sha256 := id
  currentExe := some "/usr/local/bin/shellflow"
  hostKey := fun _ => none
  store := fun _ _ => ⟨none, []⟩
  pathExists := fun _ _ => true
  isDir := fun _ _ => false
  sudoTestDir := fun _ _ => true
  listDir := fun _ _ => .error "Permission denied"
  sudoList := fun _ _ => .names []
  unitTexts := fun _ => []
  probe := fun _ w => (.denied, w)
  sudoStatus := fun _ w => (some 0, w)
  encrypt := fun _ _ _ w => (.status 0, w)
  removeTree := fun _ w => w
  exchange := fun _ _ w => (true, w)
  rename := fun _ _ w => (none, w)
  writeSecret := fun _ _ w => w

/-- The deploy user of a playbook block with one secret. -/
def deployUser : ProcessContext := ⟨false, false, some "TOKEN", fun _ => some "s3cr3t"⟩

theorem credstore_skips_the_check : ¬ ∀ (m : Machine Unit) ctx args,
    exitCode (credstore m ctx args ⟨(), []⟩).1 = 0 →
      VerifiedLast args (credstore m ctx args ⟨(), []⟩).2.log := by
  intro hall
  have hlast := hall sudoMachine deployUser ⟨"app", ["TOKEN"]⟩ (by decide +kernel)
  have hover : HandsOverVerb sudoMachine deployUser ⟨"app", ["TOKEN"]⟩ () :=
    ⟨by decide +kernel, by decide +kernel, "TOKEN", rfl, by decide +kernel, rfl, rfl, rfl, _, rfl,
      rfl⟩
  have hensures := ensures_credstore sudoMachine deployUser ⟨"app", ["TOKEN"]⟩ ⟨(), []⟩
  unfold Ensures at hensures
  cases hrun : credstore sudoMachine deployUser ⟨"app", ["TOKEN"]⟩ ⟨(), []⟩ with
  | mk ended s =>
    rw [hrun] at hensures hlast
    cases ended with
    | returned _ => exact hensures.2 hover
    | failed e => exact hensures.2 hover
    | exited code => exact not_verifiedLast hensures.1 hlast

end Theorems
end Shellflow
