import Shellflow.Executor.Captured
import Shellflow.Executor.Sink
import Shellflow.Mask.ByteRanges
import Shellflow.Secrets.Registered

/-! The masking threshold over a run: the registry is filled when the run is set up, from the literals
of the plan and the decrypted files, and grows with every capture of a local block. -/
namespace Shellflow.Threshold
open Sink Capture
variable {Identity : Type}

/-- What the setup of a run reads; `rawTargets` are the targets that are no alias. -/
structure SetupArgs (Identity : Type) where
  vault : Vault Identity
  plan : ExecutionPlan
  check : Bool
  hostAliases : List String
  rawTargets : List String
  identity : Option String
  maskMinLen : Nat

/-- Literal values of `@env`; a passthrough value is no mask. -/
def planLiterals (plan : ExecutionPlan) : List String :=
  plan.env.filterMap fun entry =>
    match entry with
    | .literal _ value => some value
    | .passthrough _ => none

def noSecrets : ResolvedSecrets := ⟨[], [], [], []⟩

def rawTargetsMessage (raw : List String) : String :=
  "per-host `@secrets` (\x7bhost\x7d) need a named `@server` alias; these targets are " ++
    "raw SSH specs and cannot key a secret file: " ++ Str.join ", " raw

/-- A syntax check decrypts nothing. -/
def resolved (a : SetupArgs Identity) : Except Report ResolvedSecrets :=
  if a.check || a.plan.secrets.isEmpty then .ok noSecrets
  else resolveSecrets a.vault a.plan.secrets a.hostAliases a.identity a.maskMinLen

/-- The setup up to the registry; what may fail after it leaves the registry as it is. -/
def setupRun (a : SetupArgs Identity) (ui : Ui) : Except Report Ui :=
  let usesPerHost := a.plan.secrets.any fun entry => Str.contains entry.file "\x7bhost\x7d"
  if !a.check && usesPerHost && !a.rawTargets.isEmpty then
    .error [rawTargetsMessage a.rawTargets]
  else
    match resolved a with
    | .error report => .error report
    | .ok r =>
      .ok (setSecretValues ui ((planLiterals a.plan ++ r.masks).map String.toList)
        (r.shorts.map fun pair => (pair.1.toList, pair.2.toList)))

/-- A local block that captures: what reading its capture file gives, and what it exports. -/
structure CaptureCall where
  content : Except Text (List UInt8)
  exports : List ExportVar

/-- A capture that fails registers nothing. -/
def capture (maskMinLen : Nat) (ui : Ui) (call : CaptureCall) : Ui :=
  match (captureExports call.content call.exports maskMinLen).2 with
  | .ok found => extendSecretValues ui found.masks found.shorts
  | .error _ => ui

def runCaptures (maskMinLen : Nat) (ui : Ui) (calls : List CaptureCall) : Ui :=
  calls.foldl (capture maskMinLen) ui

theorem byteLen_toList (s : String) : byteLen s.toList = s.utf8ByteSize := by
  have hbytes : s.toByteArray = s.toList.utf8Encode := by
    rw [← String.toByteArray_ofList, String.ofList_toList]
  rw [← ByteRanges.length_encode, ← String.size_toByteArray, hbytes, List.utf8Encode,
    List.size_toByteArray]
  rfl

/-- Every value that is masked anywhere is long, or a literal of the plan. -/
def Thresholded (maskMinLen : Nat) (literals : List String) (ui : Ui) : Prop :=
  ∀ v ∈ ui.set.masks, maskMinLen ≤ byteLen v ∨ ∃ s ∈ literals, v = s.toList

section Captures
variable {maskMinLen : Nat} {literals : List String} {ui : Ui} {call : CaptureCall}
  {found found' : Found} {exports : List ExportVar} {table : Table}

theorem long_of_add {var : ExportVar} {value : Text} (h : ∀ v ∈ found.masks, maskMinLen ≤ byteLen v) :
    ∀ v ∈ (found.add var value maskMinLen).masks, maskMinLen ≤ byteLen v := by
  intro v hv
  rw [Found.add] at hv
  cases hmasking : maskingFor var value maskMinLen with
  | global =>
    rw [hmasking] at hv
    dsimp only at hv
    split at hv
    · exact h v hv
    · cases List.mem_append.mp hv with
      | inl hold => exact h v hold
      | inr hnew =>
        rw [List.mem_singleton.mp hnew]
        rw [maskingFor] at hmasking
        split at hmasking
        · cases hmasking
        · split at hmasking
          · assumption
          · cases hmasking
  | narrow =>
    rw [hmasking] at hv
    exact h v hv
  | none =>
    rw [hmasking] at hv
    exact h v hv

theorem long_of_captureVars (h : (captureVars table maskMinLen found exports).2 = .ok found')
    (hlong : ∀ v ∈ found.masks, maskMinLen ≤ byteLen v) :
    ∀ v ∈ found'.masks, maskMinLen ≤ byteLen v := by
  induction exports generalizing found with
  | nil =>
    cases h
    exact hlong
  | cons var exports ih =>
    rw [captureVars] at h
    cases htable : table var.name with
    | none =>
      rw [htable] at h
      cases h
    | some value =>
      rw [htable] at h
      exact ih h (long_of_add hlong)

/-- A capture that succeeds has read its table. -/
theorem captureExports_ok {content : Except Text (List UInt8)}
    (h : (captureExports content exports maskMinLen).2 = .ok found) :
    ∃ table, captureExports content exports maskMinLen =
      captureVars table maskMinLen ⟨[], []⟩ exports := by
  cases content with
  | error e => cases h
  | ok bytes =>
    rw [captureExports] at h ⊢
    cases htable : parseCaptureRecordsChecked bytes (some (exports.map ExportVar.name)) with
    | error e =>
      rw [htable] at h
      cases h
    | ok table => exact ⟨table, rfl⟩

theorem long_of_captureExports {content : Except Text (List UInt8)}
    (h : (captureExports content exports maskMinLen).2 = .ok found) :
    ∀ v ∈ found.masks, maskMinLen ≤ byteLen v := by
  obtain ⟨table, htable⟩ := captureExports_ok h
  rw [htable] at h
  exact long_of_captureVars h fun v hv => absurd hv List.not_mem_nil

theorem mem_masks_extend {values : List Text} {shorts : List (Text × Text)} {v : Text}
    (h : v ∈ (extendSecretValues ui values shorts).set.masks) :
    v ∈ ui.set.masks ∨ v ∈ values := by
  rw [extendSecretValues, extendMasks] at h
  split at h
  · exact .inl h
  · exact List.mem_append.mp (mem_prepareMasks.mp h).1

theorem shorts_extend (values : List Text) (shorts : List (Text × Text)) :
    (extendSecretValues ui values shorts).set.shorts = ui.set.shorts ++ shorts := by
  rw [extendSecretValues, extendMasks]
  split
  next hempty =>
    have hshorts : shorts = [] := List.isEmpty_iff.mp (Bool.and_eq_true_iff.mp hempty).2
    rw [hshorts, List.append_nil]
    rfl
  next => rfl

theorem Thresholded.capture (h : Thresholded maskMinLen literals ui) (call : CaptureCall) :
    Thresholded maskMinLen literals (capture maskMinLen ui call) := by
  intro v hv
  rw [Threshold.capture] at hv
  cases hresult : (captureExports call.content call.exports maskMinLen).2 with
  | error e =>
    rw [hresult] at hv
    exact h v hv
  | ok found =>
    rw [hresult] at hv
    cases mem_masks_extend hv with
    | inl hold => exact h v hold
    | inr hnew => exact .inl (long_of_captureExports hresult v hnew)

theorem Thresholded.run (h : Thresholded maskMinLen literals ui) (calls : List CaptureCall) :
    Thresholded maskMinLen literals (runCaptures maskMinLen ui calls) := by
  induction calls generalizing ui with
  | nil => exact h
  | cons call calls ih => exact ih (h.capture call)

/-- What is on the short list stays there. -/
theorem shorts_capture (call : CaptureCall) {pair : Text × Text} (h : pair ∈ ui.set.shorts) :
    pair ∈ (capture maskMinLen ui call).set.shorts := by
  rw [capture]
  split
  · rw [shorts_extend]
    exact List.mem_append_left _ h
  · exact h

theorem shorts_run (calls : List CaptureCall) {pair : Text × Text} (h : pair ∈ ui.set.shorts) :
    pair ∈ (runCaptures maskMinLen ui calls).set.shorts := by
  induction calls generalizing ui with
  | nil => exact h
  | cons call calls ih => exact ih (shorts_capture call h)

/-- A short value that a capture hands over is on the short list from then on. -/
theorem captured_in_shorts {calls : List CaptureCall} (hcall : call ∈ calls)
    (hok : (captureExports call.content call.exports maskMinLen).2 = .ok found)
    {var : ExportVar} (hvar : var ∈ call.exports) {value : Text}
    (hvalue : (var.name, value) ∈ (captureExports call.content call.exports maskMinLen).1)
    (hprivate : var.isPublic = false) (hne : value ≠ []) (hshort : byteLen value < maskMinLen) :
    (var.name.toList, value) ∈ (runCaptures maskMinLen ui calls).set.shorts := by
  have hfound : (var.name.toList, value) ∈ found.shorts := by
    obtain ⟨table, htable⟩ := captureExports_ok hok
    rw [htable] at hok hvalue
    obtain ⟨value', hvalue', hoffered, -⟩ := captureVars_ok hok hvar
    rw [table_of_inserted hvalue, Option.some_inj] at hvalue'
    subst hvalue'
    have hempty : value.isEmpty = false := List.isEmpty_eq_false_iff.mpr hne
    rw [Offered, maskingFor, hprivate, hempty, if_neg (by decide), if_neg (by omega)] at hoffered
    exact hoffered
  obtain ⟨before, after, rfl⟩ := List.append_of_mem hcall
  rw [runCaptures, List.foldl_append, List.foldl_cons]
  refine shorts_run after ?_
  rw [capture, hok]
  dsimp only
  rw [shorts_extend]
  exact List.mem_append_right _ hfound

end Captures

section Setup
variable {a : SetupArgs Identity} {ui ui' : Ui}

theorem setupRun_ok (h : setupRun a ui = .ok ui') :
    ∃ r, resolved a = .ok r ∧
      ui' = setSecretValues ui ((planLiterals a.plan ++ r.masks).map String.toList)
        (r.shorts.map fun pair => (pair.1.toList, pair.2.toList)) := by
  rw [setupRun] at h
  split at h
  · cases h
  · cases hr : resolved a with
    | error report =>
      rw [hr] at h
      cases h
    | ok r =>
      rw [hr] at h
      cases h
      exact ⟨r, rfl, rfl⟩

/-- The decrypted values that are masked anywhere are long. -/
theorem long_of_resolved {r : ResolvedSecrets} (h : resolved a = .ok r) :
    ∀ v ∈ r.masks, a.maskMinLen ≤ v.utf8ByteSize := by
  rw [resolved] at h
  split at h
  · cases h
    exact fun v hv => absurd hv List.not_mem_nil
  · obtain ⟨files, -, hfrom⟩ := resolvedFrom_of_resolveSecrets h
    intro v hv
    rw [hfrom.masks] at hv
    exact (mem_masks_registerAll.mp hv).1

/-- A short value that is decrypted and not superseded is on the short list of the setup. -/
theorem short_of_resolved {r : ResolvedSecrets} (h : resolved a = .ok r) (hcheck : a.check = false)
    {files : List OpenedFile}
    (hfiles : openAll a.vault a.plan.secrets a.hostAliases a.identity = .ok files) {p : EnvPair}
    (hne : p.2 ≠ "") (hshort : p.2.utf8ByteSize < a.maskMinLen)
    (hsurvives : Survives a.maskMinLen (stream files) p) : p ∈ r.shorts := by
  rw [resolved, hcheck, Bool.false_or] at h
  split at h
  next hempty =>
    rw [List.isEmpty_iff.mp hempty] at hfiles
    cases hfiles
    obtain ⟨pre, post, hsplit, -⟩ := hsurvives
    cases pre <;> cases hsplit
  next =>
    obtain ⟨files', hfiles', hfrom⟩ := resolvedFrom_of_resolveSecrets h
    rw [hfiles] at hfiles'
    cases hfiles'
    rw [hfrom.shorts]
    exact (mem_shorts_registerAll hne hshort).mpr hsurvives

theorem thresholded_setup (h : setupRun a ui = .ok ui') :
    Thresholded a.maskMinLen (planLiterals a.plan) ui' := by
  obtain ⟨r, hr, rfl⟩ := setupRun_ok h
  intro v hv
  obtain ⟨s, hs, rfl⟩ := List.mem_map.mp (mem_prepareMasks.mp hv).1
  cases List.mem_append.mp hs with
  | inl hliteral => exact .inr ⟨s, hliteral, rfl⟩
  | inr hmask =>
    rw [byteLen_toList]
    exact .inl (long_of_resolved hr s hmask)

/-- The threshold over a run: a value that is masked anywhere is long or a literal of the plan, and a
short value that is decrypted or captured, and not superseded, is on the short list. -/
theorem threshold_run (h : setupRun a ui = .ok ui') (calls : List CaptureCall) :
    Thresholded a.maskMinLen (planLiterals a.plan) (runCaptures a.maskMinLen ui' calls) ∧
    (a.check = false → ∀ files,
      openAll a.vault a.plan.secrets a.hostAliases a.identity = .ok files →
      ∀ p : EnvPair, p.2 ≠ "" → p.2.utf8ByteSize < a.maskMinLen →
        Survives a.maskMinLen (stream files) p →
        (p.1.toList, p.2.toList) ∈ (runCaptures a.maskMinLen ui' calls).set.shorts) ∧
    ∀ call ∈ calls, ∀ found,
      (captureExports call.content call.exports a.maskMinLen).2 = .ok found →
      ∀ var ∈ call.exports, var.isPublic = false → ∀ value,
        (var.name, value) ∈ (captureExports call.content call.exports a.maskMinLen).1 →
        value ≠ [] → byteLen value < a.maskMinLen →
        (var.name.toList, value) ∈ (runCaptures a.maskMinLen ui' calls).set.shorts := by
  refine ⟨(thresholded_setup h).run calls, fun hcheck files hfiles p hne hshort hsurvives => ?_, ?_⟩
  · obtain ⟨r, hr, rfl⟩ := setupRun_ok h
    refine shorts_run calls ?_
    exact List.mem_map_of_mem (short_of_resolved hr hcheck hfiles hne hshort hsurvives)
  · intro call hcall found hok var hvar hprivate value hvalue hne hshort
    exact captured_in_shorts hcall hok hvar hvalue hprivate hne hshort

/-- A run for two hosts with a sealed file each, and a short literal. -/
def twoHosts : SetupArgs Unit where
  vault := twoHostVault
  plan :=
    { ExecutionPlan.empty with
      env := [.literal "STAGE" "qa"], secrets := [⟨"{host}.age", none⟩] }
  check := false
  hostAliases := ["web1", "web2"]
  rawTargets := []
  identity := none
  maskMinLen := 6

def startUi : Ui := ⟨0, ⟨[], []⟩, fun _ _ => none, .stream, false⟩

def twoHostsUi : Ui :=
  setSecretValues startUi ["qa".toList] [("TOKEN".toList, "xyz".toList)]

/-- A block that captures a short value. -/
def pinCall : CaptureCall := ⟨.ok (recordsOf [("PIN", "4711".toList)]), [⟨"PIN", false⟩]⟩

theorem setupRun_twoHosts : setupRun twoHosts startUi = .ok twoHostsUi := by
  have hresolved : resolved twoHosts = .ok ⟨[], [("web1", [("TOKEN", "abc")]),
      ("web2", [("TOKEN", "xyz")])], [], [("TOKEN", "xyz")]⟩ := by decide +kernel
  rw [setupRun, hresolved]
  rfl

theorem captureExports_pinCall : captureExports pinCall.content pinCall.exports 6 =
    ([("PIN", "4711".toList)], .ok ⟨[], [("PIN".toList, "4711".toList)]⟩) := by
  have hparse : parseCaptureRecordsChecked (recordsOf [("PIN", "4711".toList)]) (some ["PIN"]) =
      .ok fun name => Assoc.last? name [("PIN", "4711".toList)] := by
    rw [parseChecked_recordsOf (by decide) (by decide)]
    rfl
  rw [pinCall, captureExports]
  dsimp only [List.map]
  rw [hparse]
  rfl

theorem threshold_run_twoHosts :
    Thresholded 6 ["qa"] (runCaptures 6 twoHostsUi [pinCall]) ∧
    ("PIN".toList, "4711".toList) ∈ (runCaptures 6 twoHostsUi [pinCall]).set.shorts := by
  have hrun := threshold_run setupRun_twoHosts [pinCall]
  refine ⟨hrun.1, ?_⟩
  refine hrun.2.2 pinCall List.mem_cons_self _ (congrArg Prod.snd captureExports_pinCall) ⟨"PIN", false⟩
    List.mem_cons_self rfl "4711".toList ?_ (by decide) (by decide)
  rw [show captureExports pinCall.content pinCall.exports twoHosts.maskMinLen = _ from
    captureExports_pinCall]
  exact List.mem_cons_self

/-- A literal of the plan is masked anywhere, however short it is. -/
theorem short_literal_is_masked :
    ¬ ∀ (a : SetupArgs Unit) (ui ui' : Ui) (calls : List CaptureCall), setupRun a ui = .ok ui' →
      ∀ v ∈ (runCaptures a.maskMinLen ui' calls).set.masks, a.maskMinLen ≤ byteLen v := by
  intro hall
  have hlong := hall twoHosts startUi twoHostsUi [] setupRun_twoHosts "qa".toList
    (@mem_prepareMasks ["qa".toList] "qa".toList |>.mpr ⟨List.mem_cons_self, by decide⟩)
  exact absurd hlong (by decide)

end Setup

end Shellflow.Threshold
