import Shellflow.CredEnv.Fingerprint
import Shellflow.Lib.Process

/-! The credential installer: the checks, the re-execution under sudo, and the replacement of the
store. -/
namespace Shellflow
open Process Process.Program

def credstoreRoot : String := "/etc/credstore.encrypted"

/-- Lower-case letters, digits and single hyphens after a letter. -/
def isValidServiceName (name : String) : Bool :=
  let lower := fun c : Char => 'a' ≤ c && c ≤ 'z'
  if Str.contains name "--" then false
  else
    match name.toList with
    | [] => false
    | first :: rest =>
      lower first && rest.all fun c => lower c || Str.isAsciiDigit c || c == '-'

inductive Probe
  | writable
  | denied
  | broken

/-- How one `systemd-creds encrypt` ends. -/
inductive EncryptEnd
  | notStarted
  | stdinBroken
  | notFinished
  | status (code : Int)

inductive SudoList
  | notStarted (error : String)
  | failed (stderr : String)
  | names (entries : List String)

/-- The machine an installer runs on. What it can be asked depends on its state; what changes it
answers with a new one. A command that cannot be run has no exit status. -/
structure Machine (W : Type) where
  sha256 : List UInt8 → List UInt8
  currentExe : Option String
  hostKey : W → Option (List UInt8)
  store : String → W → CredentialStore
  pathExists : String → W → Bool
  isDir : String → W → Bool
  sudoTestDir : String → W → Bool
  listDir : String → W → Except String (List String)
  sudoList : String → W → SudoList
  unitTexts : W → List String
  probe : String → W → Probe × W
  sudoStatus : List String → W → Option Int × W
  encrypt (key path value : String) : W → EncryptEnd × W
  removeTree : String → W → W
  exchange (a b : String) : W → Bool × W
  rename (a b : String) : W → Option String × W
  writeSecret (path text : String) : W → W

/-- The process: its user, whether it was re-executed, the text of the list of keys and the
variables of its environment that are UTF-8. -/
structure ProcessContext where
  isRoot : Bool
  elevated : Bool
  secretKeys : Option String
  var : String → Option String

/-- What a process does that can change the store. -/
inductive Operation
  | probed (store : String)
  | sudoed (args : List String)
  | encrypted (key path : String)
  | removed (path : String)
  | exchanged (a b : String)
  | renamed (a b : String)
  | written (path : String)

inductive Event
  | did (op : Operation)
  | verified (service : String) (require : List String)

/-- The state of the machine, and what the process did so far. -/
structure Run (W : Type) where
  world : W
  log : List Event

section Install

variable {W : Type} (m : Machine W) (ctx : ProcessContext)

abbrev Verb (W ε α : Type) := Program (Run W) ε α

/-- An operation on the machine, written down. -/
def operate {ε α : Type} (op : Operation) (step : W → α × W) : Verb W ε α :=
  act fun s => ((step s.world).1, ⟨(step s.world).2, s.log ++ [.did op]⟩)

def ask {ε α : Type} (question : W → α) : Verb W ε α := act fun s => (question s.world, s)

def runSudo (args : List String) : Verb W String Unit := do
  let command := args.head?.getD ""
  match ← operate (.sudoed args) (m.sudoStatus args) with
  | none => fail s!"cred-env: cannot run `sudo {command}`"
  | some code =>
    if code = 0 then pure ()
    else fail s!"cred-env: `sudo {command}` failed (status exit status: {code})"

def storePath (service : String) : String := credstoreRoot ++ "/" ++ service

/-- Where the new store is built: beside the old one. -/
def stagingPath (store : String) : String :=
  withFileName store ((fileName store).getD "store" ++ ".new")

/-- Where the old store is renamed to when the two cannot be exchanged. -/
def retiredPath (store : String) : String := withExtension store "old"

/-- A failed removal is reported, not an error. -/
def discardTree (path : String) : Verb W String Unit :=
  operate (.removed path) fun w => ((), m.removeTree path w)

def sealOne (store key : String) : Verb W String Unit :=
  if isValidVarName key then
    match ctx.var key with
    | none => fail s!"cred-env credstore-install: credential `{key}` is not set in the environment"
    | some value =>
      if value = "" then fail s!"cred-env credstore-install: credential `{key}` is empty"
      else do
        let path := store ++ "/" ++ key
        match ← operate (.encrypted key path) (m.encrypt key path value) with
        | .notStarted =>
          fail "cred-env credstore-install: cannot run `sudo systemd-creds encrypt`"
        | .stdinBroken => fail "cred-env: cannot write to systemd-creds stdin"
        | .notFinished => fail "cred-env: systemd-creds did not finish"
        | .status code =>
          if code = 0 then runSudo m ["chmod", "0600", path]
          else
            fail (s!"cred-env credstore-install: systemd-creds failed for `{key}` " ++
              s!"(status exit status: {code})")
  else fail s!"cred-env credstore-install: invalid credential key `{key}`"

def sealAll (keys : List String) (store : String) : Verb W String Unit :=
  each (sealOne m ctx store) keys

def writeFingerprint (store fingerprint : String) : Verb W String Unit :=
  operate (.written store) fun w =>
    ((), m.writeSecret (store ++ "/" ++ fingerprintFile) fingerprint w)

/-- A rename that is not always needed; its answer is the error. -/
def renameWhen (needed : Bool) (a b : String) : Verb W String (Option String) :=
  if needed then operate (.renamed a b) (m.rename a b) else pure none

/-- Where two directories cannot be exchanged, the old store is renamed aside. -/
def replaceByRename (store staging fingerprint : String) : Verb W String Unit := do
  let retired := retiredPath store
  discardTree m retired
  let hadPrevious ← ask (m.pathExists store)
  match ← renameWhen m hadPrevious store retired with
  | some _ => do
    discardTree m staging
    fail s!"cred-env credstore-install: cannot retire the previous store at `{store}`"
  | none => do
    match ← operate (.renamed staging store) (m.rename staging store) with
    | some error => do
      let _ ← renameWhen m hadPrevious retired store
      discardTree m staging
      fail s!"cred-env credstore-install: cannot install the new store at `{store}`: {error}"
    | none => do
      discardTree m retired
      writeFingerprint m store fingerprint

/-- The new store is built beside the old one and takes its place when every key is sealed. -/
def replaceStore (keys : List String) (store fingerprint : String) : Verb W String Unit := do
  let staging := stagingPath store
  discardTree m staging
  runSudo m ["install", "-d", "-m", "0700", staging]
  match ← (sealAll m ctx keys staging).attempt with
  | .error error => do
    discardTree m staging
    fail error
  | .ok () => do
    let exchanged ← operate (.exchanged staging store) (m.exchange staging store)
    if exchanged then do
      discardTree m staging
      writeFingerprint m store fingerprint
    else replaceByRename m store staging fingerprint

def sealIntoStore (service : String) (storeDir : Option String) (keys : List String)
    (valid : ∀ key ∈ keys, isValidVarName key = true) : Verb W String Unit := do
  let store := storeDir.getD (storePath service)
  runSudo m ["install", "-d", "-m", "0700", store]
  let fingerprint ← ask fun w =>
    (SealInput.mk keys ctx.var (m.hostKey w) valid).sealFingerprint m.sha256
  let current ← ask fun w => storeIsCurrent (m.store store w) keys fingerprint
  if current then pure () else replaceStore m ctx keys store fingerprint

/-- The arguments of sudo for the re-execution: exactly the keys cross the boundary. -/
def elevatedArgs (exe service : String) (keys : List String) : List String :=
  ["--preserve-env=" ++ Str.join "," ("LT_SECRET_KEYS" :: keys), exe, "cred-env",
    "credstore-install", service]

/-- Without root and without a writable store the process hands over to one under sudo, and ends
when that one has succeeded. -/
def ensureElevation (service : String) (keys : List String) : Verb W String Unit :=
  if ctx.isRoot then pure ()
  else if ctx.elevated then
    fail "cred-env credstore-install: elevation failed (still unprivileged)"
  else do
    let store := storePath service
    match ← operate (.probed store) (m.probe store) with
    | .writable => pure ()
    | .broken => fail s!"cred-env: cannot access store `{store}`"
    | .denied =>
      match m.currentExe with
      | none => fail "cred-env: cannot locate own binary"
      | some exe => do
        let args := elevatedArgs exe service keys
        match ← operate (.sudoed args) (m.sudoStatus args) with
        | none => fail "cred-env credstore-install: cannot run `sudo` for elevation"
        | some code =>
          if code = 0 then exit 0
          else
            fail s!"cred-env credstore-install: elevated install failed (status exit status: {code})"

def credstoreInstall (service : String) : Verb W String Unit :=
  if isValidServiceName service then
    match ctx.secretKeys with
    | none =>
      fail ("cred-env credstore-install: LT_SECRET_KEYS is not set — run inside a " ++
        "shellflow `@secrets` block (a set-but-empty list clears the store)")
    | some raw =>
      let keys := Str.splitWhitespace raw
      match h : keys.find? fun key => !isValidVarName key with
      | some key => fail s!"cred-env credstore-install: invalid credential key `{key}`"
      | none => do
        ensureElevation m ctx service keys
        sealIntoStore m ctx service none keys fun key hkey => by
          simpa using List.find?_eq_none.mp h key hkey
  else fail s!"cred-env credstore-install: unsafe service name `{service}`"

end Install
def Event.IsVerified : Event → Prop
  | .verified _ _ => True
  | _ => False

/-- The log goes on, without a check of the store. -/
def Quiet {W : Type} (s s' : Run W) : Prop :=
  ∃ more, s'.log = s.log ++ more ∧ ∀ e ∈ more, ¬ e.IsVerified

section Quiet

variable {W : Type} {ε α β : Type} {m : Machine W} {ctx : ProcessContext}

theorem Quiet.refl (s : Run W) : Quiet s s :=
  ⟨[], (List.append_nil s.log).symm, fun _ he => absurd he List.not_mem_nil⟩

theorem Quiet.trans (a b c : Run W) (hab : Quiet a b) (hbc : Quiet b c) : Quiet a c := by
  obtain ⟨more, hmore, hquiet⟩ := hab
  obtain ⟨more', hmore', hquiet'⟩ := hbc
  exact ⟨more ++ more', by rw [hmore', hmore, List.append_assoc],
    List.forall_mem_append.mpr ⟨hquiet, hquiet'⟩⟩

theorem quiet_did (s : Run W) (op : Operation) (w : W) : Quiet s ⟨w, s.log ++ [.did op]⟩ := by
  refine ⟨[.did op], rfl, fun e he => ?_⟩
  rw [List.mem_singleton.mp he]
  exact not_false

theorem steps_operate (op : Operation) (step : W → α × W) :
    Steps Quiet (operate op step : Verb W ε α) := Steps.act fun s => quiet_did s op _

theorem ensures_operate (op : Operation) (step : W → α × W) (s : Run W)
    (post : Post (Run W) ε α) :
    Ensures (operate op step) s post ↔
      post.returned (step s.world).1 ⟨(step s.world).2, s.log ++ [.did op]⟩ := Iff.rfl

theorem steps_ask (question : W → α) : Steps Quiet (ask question : Verb W ε α) :=
  Steps.act Quiet.refl

theorem steps_pure (a : α) : Steps Quiet (pure a : Verb W ε α) := Steps.pure Quiet.refl a

theorem steps_fail (e : ε) : Steps Quiet (fail e : Verb W ε α) := Steps.fail Quiet.refl e

theorem steps_bind {p : Verb W ε α} {f : α → Verb W ε β} (h : Steps Quiet p)
    (hnext : ∀ a, Steps Quiet (f a)) : Steps Quiet (p >>= f) := Steps.bind Quiet.trans h hnext

theorem steps_runSudo (args : List String) : Steps Quiet (runSudo m args) := by
  refine steps_bind (steps_operate _ _) fun status => ?_
  cases status with
  | none => exact steps_fail _
  | some code => exact Steps.ite (steps_pure ()) (steps_fail _)

theorem steps_discardTree (path : String) : Steps Quiet (discardTree m path) :=
  steps_operate _ _

theorem steps_sealOne (store key : String) : Steps Quiet (sealOne m ctx store key) := by
  unfold sealOne
  refine Steps.ite ?_ (steps_fail _)
  cases ctx.var key with
  | none => exact steps_fail _
  | some value =>
    refine Steps.ite (steps_fail _) (steps_bind (steps_operate _ _) fun ended => ?_)
    cases ended with
    | notStarted => exact steps_fail _
    | stdinBroken => exact steps_fail _
    | notFinished => exact steps_fail _
    | status code => exact Steps.ite (steps_runSudo _) (steps_fail _)

theorem steps_sealAll (keys : List String) (store : String) :
    Steps Quiet (sealAll m ctx keys store) :=
  Steps.each Quiet.refl Quiet.trans (steps_sealOne store) keys

theorem steps_writeFingerprint (store fingerprint : String) :
    Steps Quiet (writeFingerprint m store fingerprint) := steps_operate _ _

theorem steps_replaceByRename (store staging fingerprint : String) :
    Steps Quiet (replaceByRename m store staging fingerprint) := by
  have hrename : ∀ (needed : Bool) (a b : String), Steps Quiet (renameWhen m needed a b) :=
    fun needed a b => Steps.ite (steps_operate _ _) (steps_pure none)
  unfold replaceByRename
  refine steps_bind (steps_discardTree _) fun _ => steps_bind (steps_ask _) fun hadPrevious =>
    steps_bind (hrename _ _ _) fun aside => ?_
  cases aside with
  | some _ => exact steps_bind (steps_discardTree _) fun _ => steps_fail _
  | none =>
    refine steps_bind (steps_operate _ _) fun moved => ?_
    cases moved with
    | some error =>
      exact steps_bind (hrename _ _ _) fun _ =>
        steps_bind (steps_discardTree _) fun _ => steps_fail _
    | none => exact steps_bind (steps_discardTree _) fun _ => steps_writeFingerprint _ _

theorem steps_replaceStore (keys : List String) (store fingerprint : String) :
    Steps Quiet (replaceStore m ctx keys store fingerprint) := by
  unfold replaceStore
  refine steps_bind (steps_discardTree _) fun _ => steps_bind (steps_runSudo _) fun _ =>
    steps_bind (steps_sealAll _ _).attempt fun sealed => ?_
  cases sealed with
  | error error => exact steps_bind (steps_discardTree _) fun _ => steps_fail _
  | ok _ =>
    refine steps_bind (steps_operate _ _) fun exchanged => Steps.ite ?_ ?_
    · exact steps_bind (steps_discardTree _) fun _ => steps_writeFingerprint _ _
    · exact steps_replaceByRename _ _ _

/-- The replacement of the store returns or fails. -/
theorem steps_sealIntoStore (service : String) (storeDir : Option String) (keys : List String)
    (valid : ∀ key ∈ keys, isValidVarName key = true) :
    Steps Quiet (sealIntoStore m ctx service storeDir keys valid) := by
  unfold sealIntoStore
  exact steps_bind (steps_runSudo _) fun _ => steps_bind (steps_ask _) fun _ =>
    steps_bind (steps_ask _) fun _ => Steps.ite (steps_pure ()) (steps_replaceStore _ _ _)

end Quiet

section HandsOver

variable {W : Type} (m : Machine W) (ctx : ProcessContext)

/-- The installer is not root and not under sudo already, may not write to the store, and the one
it starts under sudo succeeds. -/
def HandsOver (service : String) (keys : List String) (w : W) : Prop :=
  ctx.isRoot = false ∧ ctx.elevated = false ∧ (m.probe (storePath service) w).1 = .denied ∧
    ∃ exe, m.currentExe = some exe ∧
      (m.sudoStatus (elevatedArgs exe service keys) (m.probe (storePath service) w).2).1 = some 0

variable {m ctx}

/-- The process ends inside the elevation exactly when it hands over, and then with code 0. -/
theorem ensures_ensureElevation (service : String) (keys : List String) (s : Run W) :
    Ensures (ensureElevation m ctx service keys) s
      ⟨fun _ s' => Quiet s s' ∧ ¬ HandsOver m ctx service keys s.world,
        fun _ s' => Quiet s s' ∧ ¬ HandsOver m ctx service keys s.world,
        fun code s' => Quiet s s' ∧ HandsOver m ctx service keys s.world ∧ code = 0⟩ := by
  unfold ensureElevation
  by_cases hroot : ctx.isRoot = true
  · rw [if_pos hroot]
    exact ⟨Quiet.refl s, fun h => by rw [h.1] at hroot; cases hroot⟩
  · rw [if_neg hroot]
    by_cases helevated : ctx.elevated = true
    · rw [if_pos helevated]
      exact ⟨Quiet.refl s, fun h => by rw [h.2.1] at helevated; cases helevated⟩
    · rw [if_neg helevated, ensures_bind, ensures_operate]
      have hprobed := quiet_did s (.probed (storePath service)) (m.probe (storePath service) s.world).2
      cases hprobe : (m.probe (storePath service) s.world).1 with
      | writable => exact ⟨hprobed, fun h => by rw [h.2.2.1] at hprobe; cases hprobe⟩
      | broken => exact ⟨hprobed, fun h => by rw [h.2.2.1] at hprobe; cases hprobe⟩
      | denied =>
        cases hexe : m.currentExe with
        | none =>
          refine ⟨hprobed, fun h => ?_⟩
          obtain ⟨exe, hsome, -⟩ := h.2.2.2
          rw [hexe] at hsome
          cases hsome
        | some exe =>
          dsimp only
          rw [ensures_bind, ensures_operate]
          have hran := hprobed.trans _ _ _ (quiet_did _ (.sudoed (elevatedArgs exe service keys))
            (m.sudoStatus (elevatedArgs exe service keys)
              (m.probe (storePath service) s.world).2).2)
          have hover : HandsOver m ctx service keys s.world ↔
              (m.sudoStatus (elevatedArgs exe service keys)
                (m.probe (storePath service) s.world).2).1 = some 0 := by
            refine ⟨fun h => ?_, fun h => ?_⟩
            · obtain ⟨exe', hsome, hstatus⟩ := h.2.2.2
              rw [hexe] at hsome
              cases hsome
              exact hstatus
            · exact ⟨Bool.eq_false_iff.mpr hroot, Bool.eq_false_iff.mpr helevated, hprobe, exe, hexe, h⟩
          dsimp only
          cases hstatus : (m.sudoStatus (elevatedArgs exe service keys)
              (m.probe (storePath service) s.world).2).1 with
          | none =>
            rw [hstatus] at hover
            exact ⟨hran, fun h => by cases hover.mp h⟩
          | some code =>
            rw [hstatus] at hover
            dsimp only
            by_cases hcode : code = 0
            · rw [if_pos hcode]
              exact ⟨hran, hover.mpr (by rw [hcode]), rfl⟩
            · rw [if_neg hcode]
              exact ⟨hran, fun h => hcode (Option.some.inj (hover.mp h))⟩

variable (m ctx) in
/-- The installer gets as far as the elevation, and hands over there. -/
def HandsOverInstall (service : String) (w : W) : Prop :=
  isValidServiceName service = true ∧ ∃ raw, ctx.secretKeys = some raw ∧
    (∀ key ∈ Str.splitWhitespace raw, isValidVarName key = true) ∧
      HandsOver m ctx service (Str.splitWhitespace raw) w

theorem ensures_credstoreInstall (service : String) (s : Run W) :
    Ensures (credstoreInstall m ctx service) s
      ⟨fun _ s' => Quiet s s' ∧ ¬ HandsOverInstall m ctx service s.world,
        fun _ s' => Quiet s s' ∧ ¬ HandsOverInstall m ctx service s.world,
        fun code s' => Quiet s s' ∧ HandsOverInstall m ctx service s.world ∧ code = 0⟩ := by
  unfold credstoreInstall
  by_cases hservice : isValidServiceName service = true
  · rw [if_pos hservice]
    split
    next hkeys =>
      refine ⟨Quiet.refl s, fun h => ?_⟩
      obtain ⟨-, raw, hraw, -⟩ := h
      rw [hkeys] at hraw
      cases hraw
    next raw hkeys =>
      have hover : HandsOverInstall m ctx service s.world ↔
          (∀ key ∈ Str.splitWhitespace raw, isValidVarName key = true) ∧
            HandsOver m ctx service (Str.splitWhitespace raw) s.world := by
        refine ⟨fun h => ?_, fun h => ⟨hservice, raw, hkeys, h⟩⟩
        obtain ⟨-, raw', hraw, h⟩ := h
        rw [hkeys] at hraw
        cases hraw
        exact h
      dsimp only
      split
      next key hbad =>
        have hinvalid := List.find?_some hbad
        refine ⟨Quiet.refl s, fun h => ?_⟩
        rw [(hover.mp h).1 key (List.mem_of_find?_eq_some hbad)] at hinvalid
        cases hinvalid
      next hvalid =>
        have hall : ∀ key ∈ Str.splitWhitespace raw, isValidVarName key = true :=
          fun key hkey => by simpa using List.find?_eq_none.mp hvalid key hkey
        rw [hover, and_iff_right hall, ensures_bind]
        refine (ensures_ensureElevation service (Str.splitWhitespace raw) s).mono
          (fun _ s' h => ?_) (fun _ _ h => h) fun _ _ h => h
        refine (steps_sealIntoStore service none _ _ s').mono (fun _ _ hseal => ?_)
          (fun _ _ hseal => ?_) fun _ _ hfalse => hfalse.elim
        · exact ⟨h.1.trans _ _ _ hseal, h.2⟩
        · exact ⟨h.1.trans _ _ _ hseal, h.2⟩
  · rw [if_neg hservice]
    exact ⟨Quiet.refl s, fun h => hservice h.1⟩

end HandsOver
end Shellflow
