import Shellflow.Dsl.Exports
import Shellflow.Dsl.Guards
import Shellflow.Dsl.SshArgs
import Shellflow.Executor.Deadlines
import Shellflow.Executor.HelperWords

/-! What the parser lets through: the arguments of every step that an accepted script has. -/
namespace Shellflow
open Fallible HostStep

section Shapes

def Absolute (path : String) : Prop := Str.startsWith path "/" = true

/-- A safe unit name with its suffix. -/
def IsUnit (unit : String) : Prop := isValidUnitName unit = true ∧ Str.endsWith unit ".service" = true

/-- A number of seconds, lines or snapshots: none is written as zero. -/
def Positive (count : Option Nat) : Prop := ∀ n, count = some n → 0 < n

def Labelled (text : Option String) : Prop := ∀ label, text = some label → label ≠ ""

def IsPort (port : Nat) : Prop := 0 < port ∧ port < 65536

/-- The bits of a mode fit into 32. -/
def IsMode (mode : Option Nat) : Prop := ∀ bits, mode = some bits → bits < 4294967296

/-- The text of a block: its lines with a newline behind each, one of which is neither blank nor a
comment. -/
def IsBlockScript (script : String) : Prop :=
  ∃ lines : List (List Char), script = String.ofList (['\n'].intercalate lines ++ ['\n']) ∧
    ∃ line ∈ lines, Str.trimChars line ≠ [] ∧ (Str.trimChars line).head? ≠ some '#'

def EnvEntry.key : EnvEntry → String
  | .literal key _ => key
  | .passthrough key => key

def Assertion.Accepted : Assertion → Prop
  | .unitState unit _ => IsUnit unit
  | .enabled unit _ => IsUnit unit
  | .health url expect method _ _ =>
    (Str.startsWith url "http://" = true ∨ Str.startsWith url "https://" = true) ∧
      (∀ c ∈ url.toList, Str.isWhitespace c = false ∧ isControl c = false) ∧
      (∀ code ∈ expect, isStatusPattern code = true) ∧
      ∀ verb, method = some verb → Str.all verb isAsciiAlphabetic = true
  | .port ports _ => ports ≠ [] ∧ ∀ port ∈ ports, IsPort port
  | .portFree ports => ports ≠ [] ∧ ∀ port ∈ ports, IsPort port
  | .rendered path => Absolute path
  | .noLeak unit lines => IsUnit unit ∧ Positive lines
  | .digest path sha256 _ => Absolute path ∧
      ∀ hex, sha256 = some hex → hex.toList.length = 64 ∧ Str.all hex isAsciiHexdigit = true
  | .credstore service => isValidUnitName service = true

/-- The arguments of a step, in a plan with these variables. -/
def Step.Accepted (env : List EnvEntry) : Step → Prop
  | .localBlock s => IsBlockScript s.script ∧ s.env <+: env
  | .remote s => IsBlockScript s.script ∧ s.env <+: env
  | .copy s => (∀ entry ∈ s.entries, entry.src ≠ "" ∧ entry.dst ≠ "") ∧
      (∀ glob ∈ s.excludes, glob ≠ "") ∧ s.env <+: env
  | .wait s => IsUnit s.unit
  | .reload s => IsUnit s.unit ∧ ∀ sig, s.signal = some sig →
      sig ≠ "" ∧ Str.all sig (fun c => isAsciiAlphanumeric c || c == '_') = true
  | .assert s => ∀ check ∈ s.checks, check.Accepted
  | .service s => IsUnit s.unit
  | .install s => s.src ≠ "" ∧ Absolute s.dst ∧ IsMode s.mode ∧ IsMode s.dirMode ∧
      ∀ owner, s.owner = some owner → ShellWords.isLiteral owner.toList = true
  | .backup s => s.paths ≠ [] ∧ (∀ path ∈ s.paths, Absolute path) ∧ Positive s.keep ∧
      (∀ dir, s.dir = some dir → Absolute dir) ∧
      ∀ service, s.service = some service → isValidUnitName service = true
  | .credstore s => isValidUnitName s.service = true ∧ ∀ key ∈ s.require, isValidVarName key = true
  | .unitInventory _ => True
  | .helper s => Absolute s.installPath
  | .release s => (Str.splitChar s.repo '/').length = 2 ∧ Absolute s.toDir ∧
      ∀ base, s.baseUrl = some base →
        Str.startsWith base "https://" = true ∨ Str.startsWith base "http://" = true
  | .build s => s.repo ≠ "" ∧ s.artifacts ≠ [] ∧ s.installDirs ≠ [] ∧
      (∀ dir ∈ s.installDirs, Absolute dir) ∧ (∀ dir, s.workdir = some dir → Absolute dir) ∧
      ∀ unit ∈ s.units, IsUnit unit
  | .toolchain s => s.tools ≠ [] ∧ s.tools.Nodup ∧ ∀ tool ∈ s.tools, isKnownTool tool = true
  | .image s => s.images ≠ []

/-- A step of an accepted script: its own arguments, and what the options before it say. -/
structure Step.WellFormed (env : List EnvEntry) (step : Step) : Prop where
  accepted : step.Accepted env
  named : Labelled step.name
  timed : Positive (Deadlines.stepTimeout step)
  guarded : Labelled step.guard
  exported : ∀ v ∈ step.exports, isValidVarName v.name = true

/-- What earlier lines hold ready for the next step. -/
structure StepMeta.Sound (m : StepMeta) : Prop where
  named : Labelled m.name
  timed : Positive m.timeout

end Shapes

section Words
variable {line : Nat} {directive : String}

theorem ofOption_ok {α : Type} {x : Option α} {reason : String} {a : α}
    (h : ofOption x line directive reason = .ok a) : x = some a := by
  cases x with
  | none => cases h
  | some b => exact congrArg some (Except.ok.inj h)

theorem twoWords_ok {positional : List String} {expected : String} {words : String × String}
    (h : twoWords positional line directive expected = .ok words) :
    positional = [words.1, words.2] := by
  unfold twoWords at h
  split at h
  · rw [← Except.ok.inj h]
  · cases h

theorem lt_of_parseUnsigned {radix bound n : Nat} {s : List Char}
    (h : Str.parseUnsignedChars radix bound s = some n) : n < bound := by
  rw [Str.parseUnsignedChars] at h
  split at h
  · split at h
    · cases h
    · exact of_decide_eq_true (Option.filter_eq_some_iff.mp h).2
  · split at h
    · cases h
    · exact of_decide_eq_true (Option.filter_eq_some_iff.mp h).2

theorem parseSecs_pos {raw : String} {secs : Nat} (h : parseSecs raw directive line = .ok secs) :
    0 < secs := by
  rw [parseSecs] at h
  split at h
  · cases h
  · cases h
  · next hne hsecs =>
    rw [← Except.ok.inj h]
    exact Nat.pos_of_ne_zero fun hzero => hne hzero

theorem parseMode_lt {raw : String} {mode : Nat} (h : parseMode raw directive line = .ok mode) :
    mode < 4294967296 := by
  simp only [parseMode] at h
  split at h
  · cases h
  · split at h
    next bits hbits =>
      rw [← Except.ok.inj h]
      exact lt_of_parseUnsigned hbits
    next => cases h

theorem endsWith_normalizeUnit (raw : String) : Str.endsWith (normalizeUnit raw) ".service" = true := by
  rw [normalizeUnit]
  split
  · assumption
  · rw [Str.endsWith, String.toList_append]
    exact List.isSuffixOf_iff_suffix.mpr (List.suffix_append _ _)

theorem safeUnit_isUnit {raw unit : String} (h : safeUnit raw directive line = .ok unit) :
    IsUnit unit := by
  refine ⟨safeUnit_valid h, ?_⟩
  obtain ⟨_, -, h⟩ := bind_eq_ok.mp h
  rw [← Except.ok.inj h]
  exact endsWith_normalizeUnit raw

end Words

section Checks
variable {payload : String} {line : Nat} {explicit : Option String} {check : Assertion}

theorem accepted_parseAssert (h : parseAssert payload line = .ok (explicit, check)) : check.Accepted := by
  obtain ⟨words, -, h⟩ := bind_eq_ok.mp h
  obtain ⟨raw, -, h⟩ := bind_eq_ok.mp h
  obtain ⟨unit, hunit, h⟩ := bind_eq_ok.mp h
  obtain ⟨state, -, h⟩ := bind_eq_ok.mp h
  cases h
  exact safeUnit_isUnit hunit

theorem enabledWord_unit {acc acc' : AssertWords} {token : String}
    (hacc : ∀ unit, acc.unit = some unit → Str.endsWith unit ".service" = true)
    (h : enabledWord line acc token = .ok acc') :
    ∀ unit, acc'.unit = some unit → Str.endsWith unit ".service" = true := by
  unfold enabledWord at h
  split at h
  · obtain ⟨_, -, h⟩ := bind_eq_ok.mp h
    cases h
    exact hacc
  · split at h
    · cases h
      intro unit hunit
      rw [← Option.some.inj hunit]
      exact endsWith_normalizeUnit token
    · split at h
      · cases h
        exact hacc
      · cases h

theorem accepted_parseAssertEnabled (h : parseAssertEnabled payload line = .ok (explicit, check)) :
    check.Accepted := by
  obtain ⟨words, hwords, h⟩ := bind_eq_ok.mp h
  obtain ⟨unit, hunit, h⟩ := bind_eq_ok.mp h
  obtain ⟨raw, -, h⟩ := bind_eq_ok.mp h
  obtain ⟨state, -, h⟩ := bind_eq_ok.mp h
  obtain ⟨_, hvalid, h⟩ := bind_eq_ok.mp h
  cases h
  have hsuffix := foldlM_invariant
    (fun acc : AssertWords => ∀ unit, acc.unit = some unit → Str.endsWith unit ".service" = true)
    (fun _ _ _ hacc hstep => enabledWord_unit hacc hstep) (by simp) hwords
  exact ⟨ensure_ok hvalid, hsuffix unit (ofOption_ok hunit)⟩

theorem portPart_ports {directive part : String} {ports ports' : List Nat}
    (hports : ∀ port ∈ ports, IsPort port) (h : portPart directive line ports part = .ok ports') :
    ∀ port ∈ ports', IsPort port := by
  rw [portPart] at h
  cases hpart : Str.parseU16 part with
  | none =>
    rw [hpart] at h
    cases h
  | some port =>
    rw [hpart] at h
    cases port with
    | zero => cases h
    | succ n =>
      have hport : IsPort (n + 1) := ⟨n.succ_pos, lt_of_parseUnsigned hpart⟩
      rw [← Except.ok.inj h]
      exact List.forall_mem_append.mpr ⟨hports, List.forall_mem_singleton.mpr hport⟩

theorem portWord_ports {directive token : String} {udpFlag : Bool} {acc acc' : PortWords}
    (hacc : ∀ port ∈ acc.ports, IsPort port)
    (h : portWord directive udpFlag line acc token = .ok acc') : ∀ port ∈ acc'.ports, IsPort port := by
  unfold portWord at h
  split at h
  · cases h
    exact hacc
  · split at h
    · obtain ⟨_, -, h⟩ := bind_eq_ok.mp h
      cases h
      exact hacc
    · obtain ⟨ports, hparts, h⟩ := bind_eq_ok.mp h
      cases h
      exact foldlM_invariant (fun ports : List Nat => ∀ port ∈ ports, IsPort port)
        (fun _ _ _ hports hstep => portPart_ports hports hstep) hacc hparts

theorem parsePortWords_ports {directive : String} {udpFlag : Bool} {words : PortWords}
    (h : parsePortWords directive udpFlag payload line = .ok words) :
    words.ports ≠ [] ∧ ∀ port ∈ words.ports, IsPort port := by
  obtain ⟨words', hwords, h⟩ := bind_eq_ok.mp h
  obtain ⟨_, hsome, h⟩ := bind_eq_ok.mp h
  cases h
  have hne := ensure_ok hsome
  exact ⟨by simpa using hne, foldlM_invariant
    (fun acc : PortWords => ∀ port ∈ acc.ports, IsPort port)
    (fun _ _ _ hacc hstep => portWord_ports hacc hstep) (List.forall_mem_nil _) hwords⟩

theorem accepted_parseAssertPort (h : parseAssertPort payload line = .ok (explicit, check)) :
    check.Accepted := by
  obtain ⟨words, hwords, h⟩ := bind_eq_ok.mp h
  cases h
  exact parsePortWords_ports hwords

theorem accepted_parseAssertPortFree (h : parseAssertPortFree payload line = .ok (explicit, check)) :
    check.Accepted := by
  obtain ⟨words, hwords, h⟩ := bind_eq_ok.mp h
  cases h
  exact parsePortWords_ports hwords

theorem accepted_parseAssertRendered (h : parseAssertRendered payload line = .ok (explicit, check)) :
    check.Accepted := by
  obtain ⟨⟨found, target⟩, -, h⟩ := bind_eq_ok.mp h
  obtain ⟨path, -, h⟩ := bind_eq_ok.mp h
  obtain ⟨_, habsolute, h⟩ := bind_eq_ok.mp h
  cases h
  exact ensure_ok habsolute

theorem noLeakFlag_pos {acc lines : Option Nat} {flag : Flag}
    (h : noLeakFlag line acc flag = .ok lines) : Positive lines := by
  unfold noLeakFlag at h
  split at h
  · obtain ⟨raw, -, h⟩ := bind_eq_ok.mp h
    split at h
    · cases h
    · cases h
    · next hne hlines =>
      rw [← Except.ok.inj h]
      rintro _ ⟨⟩
      exact Nat.pos_of_ne_zero fun hzero => hne hzero
  · cases h

theorem accepted_parseAssertNoLeak (h : parseAssertNoLeak payload line = .ok (explicit, check)) :
    check.Accepted := by
  obtain ⟨⟨positional, flags⟩, -, h⟩ := bind_eq_ok.mp h
  obtain ⟨lines, hlines, h⟩ := bind_eq_ok.mp h
  obtain ⟨raw, -, h⟩ := bind_eq_ok.mp h
  obtain ⟨unit, hunit, h⟩ := bind_eq_ok.mp h
  cases h
  exact ⟨safeUnit_isUnit hunit,
    foldlM_invariant Positive (fun _ _ _ _ hstep => noLeakFlag_pos hstep) (by simp [Positive]) hlines⟩

/-- A hash that was given has 64 digits. -/
def IsHash (sha256 : Option String) : Prop :=
  ∀ hex, sha256 = some hex → hex.toList.length = 64 ∧ Str.all hex isAsciiHexdigit = true

theorem digestFlag_hash {acc acc' : Option String × Option String} {flag : Flag}
    (hacc : IsHash acc.1) (h : digestFlag line acc flag = .ok acc') : IsHash acc'.1 := by
  unfold digestFlag at h
  split at h
  · obtain ⟨raw, -, h⟩ := bind_eq_ok.mp h
    obtain ⟨_, hhex, h⟩ := bind_eq_ok.mp h
    cases h
    intro hex hsome
    rw [← Option.some.inj hsome]
    simpa using ensure_ok hhex
  · split at h
    · obtain ⟨raw, -, h⟩ := bind_eq_ok.mp h
      cases h
      exact hacc
    · cases h

theorem accepted_parseAssertDigest (h : parseAssertDigest payload line = .ok (explicit, check)) :
    check.Accepted := by
  obtain ⟨⟨positional, flags⟩, -, h⟩ := bind_eq_ok.mp h
  obtain ⟨⟨sha256, localPath⟩, hflags, h⟩ := bind_eq_ok.mp h
  obtain ⟨path, -, h⟩ := bind_eq_ok.mp h
  obtain ⟨_, habsolute, h⟩ := bind_eq_ok.mp h
  cases h
  exact ⟨ensure_ok habsolute, foldlM_invariant (fun acc : Option String × Option String => IsHash acc.1)
    (fun _ _ _ hacc hstep => digestFlag_hash hacc hstep) (by simp [IsHash]) hflags⟩

theorem accepted_parseAssertCredstore (h : parseAssertCredstore payload line = .ok (explicit, check)) :
    check.Accepted := by
  obtain ⟨⟨positional, flags⟩, -, h⟩ := bind_eq_ok.mp h
  obtain ⟨raw, -, h⟩ := bind_eq_ok.mp h
  obtain ⟨service, hservice, h⟩ := bind_eq_ok.mp h
  cases h
  exact safeService_valid hservice

/-- What the words of a health check leave behind. -/
structure HealthArgs.Sound (args : HealthArgs) : Prop where
  expect : ∀ code ∈ args.expect, isStatusPattern code = true
  method : ∀ verb, args.method = some verb → Str.all verb isAsciiAlphabetic = true

theorem healthFlag_sound {acc acc' : HealthArgs} {token value : String} (hacc : acc.Sound)
    (h : healthFlag line acc token value = .ok acc') : acc'.Sound := by
  unfold healthFlag at h
  split at h
  · obtain ⟨expect, hexpect, h⟩ := bind_eq_ok.mp h
    cases h
    refine ⟨foldlM_invariant (fun codes : List String => ∀ code ∈ codes, isStatusPattern code = true)
      (fun codes raw codes' hcodes hstep => ?_) hacc.expect hexpect, hacc.method⟩
    obtain ⟨_, hcode, hstep⟩ := bind_eq_ok.mp hstep
    rw [← Except.ok.inj hstep]
    exact List.forall_mem_append.mpr ⟨hcodes, List.forall_mem_singleton.mpr (ensure_ok hcode)⟩
  · split at h
    · obtain ⟨_, hmethod, h⟩ := bind_eq_ok.mp h
      cases h
      refine ⟨hacc.expect, fun verb hverb => ?_⟩
      rw [← Option.some.inj hverb]
      exact ensure_ok hmethod
    · split at h
      · cases h
        exact ⟨hacc.expect, hacc.method⟩
      · obtain ⟨_, -, h⟩ := bind_eq_ok.mp h
        cases h
        exact ⟨hacc.expect, hacc.method⟩

theorem healthWord_sound {acc acc' : HealthArgs} {token : String} (hacc : acc.Sound)
    (h : healthWord line acc token = .ok acc') : acc'.Sound := by
  unfold healthWord at h
  split at h
  · cases h
  · split at h
    · obtain ⟨_, -, h⟩ := bind_eq_ok.mp h
      cases h
      exact ⟨hacc.expect, hacc.method⟩
    · obtain ⟨_, -, h⟩ := bind_eq_ok.mp h
      cases h
      exact ⟨hacc.expect, hacc.method⟩

theorem healthFrom_sound {acc acc' : HealthArgs} {words : List String} (hacc : acc.Sound)
    (h : healthFrom line acc words = .ok acc') : acc'.Sound := by
  fun_induction healthFrom line acc words with
  | case1 acc =>
    cases h
    exact hacc
  | case2 => cases h
  | case3 acc token => exact healthWord_sound hacc h
  | case4 acc token value rest reason hneeds ih =>
    obtain ⟨next, hnext, h⟩ := bind_eq_ok.mp h
    exact ih next (healthFlag_sound hacc hnext) h
  | case5 acc token value rest hneeds ih =>
    obtain ⟨next, hnext, h⟩ := bind_eq_ok.mp h
    exact ih next (healthWord_sound hacc hnext) h

theorem accepted_parseAssertHealth (h : parseAssertHealth payload line = .ok (explicit, check)) :
    check.Accepted := by
  obtain ⟨args, hargs, h⟩ := bind_eq_ok.mp h
  obtain ⟨url, -, h⟩ := bind_eq_ok.mp h
  obtain ⟨_, hscheme, h⟩ := bind_eq_ok.mp h
  obtain ⟨_, hblanks, h⟩ := bind_eq_ok.mp h
  cases h
  have hsound : args.Sound := healthFrom_sound ⟨List.forall_mem_nil _, by simp⟩ hargs
  refine ⟨Bool.or_eq_true_iff.mp (ensure_ok hscheme), fun c hc => ?_, hsound.expect, hsound.method⟩
  simpa using List.all_eq_true.mp (ensure_ok hblanks) c hc

end Checks

section Steps
variable {env : List EnvEntry} {m : StepMeta} {payload target : String} {line : Nat}

/-- A step that is no block has neither a guard nor exports. -/
theorem Step.WellFormed.of_host {step : Step} (hblock : ¬ step.IsBlock) (haccepted : step.Accepted env)
    (hnamed : Labelled step.name) (htimed : Positive (Deadlines.stepTimeout step)) :
    step.WellFormed env := by
  have hguard : step.guard = none := by cases step <;> first | rfl | exact absurd trivial hblock
  have hexports : step.exports = [] := by cases step <;> first | rfl | exact absurd trivial hblock
  refine ⟨haccepted, hnamed, htimed, ?_, ?_⟩
  · rw [hguard]
    intro label hlabel
    cases hlabel
  · rw [hexports]
    exact List.forall_mem_nil _

theorem waitFlag_pos {acc timeout : Option Nat} {flag : Flag}
    (h : waitFlag line acc flag = .ok timeout) : Positive timeout := by
  unfold waitFlag at h
  split at h
  · obtain ⟨raw, -, h⟩ := bind_eq_ok.mp h
    obtain ⟨secs, hsecs, h⟩ := bind_eq_ok.mp h
    rw [← Except.ok.inj h]
    rintro _ ⟨⟩
    exact parseSecs_pos hsecs
  · cases h

theorem wellFormed_parseWait {step : WaitStep} (hm : m.Sound)
    (h : parseWait m payload line = .ok (target, step)) : (Step.wait step).WellFormed env := by
  obtain ⟨⟨positional, flags⟩, -, h⟩ := bind_eq_ok.mp h
  obtain ⟨timeout, htimeout, h⟩ := bind_eq_ok.mp h
  obtain ⟨⟨raw, word⟩, -, h⟩ := bind_eq_ok.mp h
  obtain ⟨unit, hunit, h⟩ := bind_eq_ok.mp h
  obtain ⟨_, -, h⟩ := bind_eq_ok.mp h
  cases h
  exact .of_host not_false (safeUnit_isUnit hunit) hm.named
    (foldlM_invariant Positive (fun _ _ _ _ hstep => waitFlag_pos hstep) hm.timed htimeout)

/-- What the flags of a reload leave behind. -/
structure TimedFlags.Sound (flags : TimedFlags) : Prop where
  timed : Positive flags.timeout
  signal : ∀ sig, flags.signal = some sig →
    sig ≠ "" ∧ Str.all sig (fun c => isAsciiAlphanumeric c || c == '_') = true

theorem reloadFlag_sound {acc acc' : TimedFlags} {flag : Flag} (hacc : acc.Sound)
    (h : reloadFlag line acc flag = .ok acc') : acc'.Sound := by
  unfold reloadFlag at h
  split at h
  · cases h
    exact ⟨hacc.timed, hacc.signal⟩
  · split at h
    · obtain ⟨raw, -, h⟩ := bind_eq_ok.mp h
      obtain ⟨secs, hsecs, h⟩ := bind_eq_ok.mp h
      cases h
      refine ⟨?_, hacc.signal⟩
      rintro _ ⟨⟩
      exact parseSecs_pos hsecs
    · split at h
      · obtain ⟨sig, -, h⟩ := bind_eq_ok.mp h
        obtain ⟨_, hsig, h⟩ := bind_eq_ok.mp h
        cases h
        refine ⟨hacc.timed, fun sig' hsig' => ?_⟩
        rw [← Option.some.inj hsig']
        simpa using ensure_ok hsig
      · cases h

theorem wellFormed_parseReload {step : ReloadStep} (hm : m.Sound)
    (h : parseReload m payload line = .ok (target, step)) : (Step.reload step).WellFormed env := by
  obtain ⟨⟨positional, flags⟩, -, h⟩ := bind_eq_ok.mp h
  obtain ⟨args, hargs, h⟩ := bind_eq_ok.mp h
  obtain ⟨⟨raw, word⟩, -, h⟩ := bind_eq_ok.mp h
  obtain ⟨unit, hunit, h⟩ := bind_eq_ok.mp h
  obtain ⟨_, -, h⟩ := bind_eq_ok.mp h
  cases h
  have hsound : args.Sound := foldlM_invariant TimedFlags.Sound
    (fun _ _ _ hacc hstep => reloadFlag_sound hacc hstep) ⟨hm.timed, by simp⟩ hargs
  exact .of_host not_false ⟨safeUnit_isUnit hunit, hsound.signal⟩ hm.named hsound.timed

theorem serviceFlag_pos {acc acc' : ServiceFlags} {flag : Flag} (hacc : Positive acc.timeout)
    (h : serviceFlag line acc flag = .ok acc') : Positive acc'.timeout := by
  unfold serviceFlag at h
  repeat' split at h
  pick_goal 7
  · obtain ⟨raw, -, h⟩ := bind_eq_ok.mp h
    obtain ⟨secs, hsecs, h⟩ := bind_eq_ok.mp h
    cases h
    rintro _ ⟨⟩
    exact parseSecs_pos hsecs
  all_goals
    cases h
    try exact hacc

theorem wellFormed_parseService {step : ServiceStep} (hm : m.Sound)
    (h : parseService m payload line = .ok (target, step)) : (Step.service step).WellFormed env := by
  obtain ⟨⟨positional, flags⟩, -, h⟩ := bind_eq_ok.mp h
  obtain ⟨args, hargs, h⟩ := bind_eq_ok.mp h
  obtain ⟨⟨raw, word⟩, -, h⟩ := bind_eq_ok.mp h
  obtain ⟨unit, hunit, h⟩ := bind_eq_ok.mp h
  obtain ⟨_, -, h⟩ := bind_eq_ok.mp h
  cases h
  exact .of_host not_false (safeUnit_isUnit hunit) hm.named
    (foldlM_invariant (fun acc : ServiceFlags => Positive acc.timeout)
      (fun _ _ _ hacc hstep => serviceFlag_pos hacc hstep) hm.timed hargs)

/-- The modes that an install was given. -/
def InstallFlags.Fits (flags : InstallFlags) : Prop := IsMode flags.mode ∧ IsMode flags.dirMode

theorem installFlag_fits {acc acc' : InstallFlags} {flag : Flag} (hacc : acc.Fits)
    (h : installFlag line acc flag = .ok acc') : acc'.Fits := by
  unfold installFlag at h
  split at h
  · obtain ⟨_, -, h⟩ := bind_eq_ok.mp h
    obtain ⟨mode, hmode, h⟩ := bind_eq_ok.mp h
    cases h
    refine ⟨?_, hacc.2⟩
    rintro _ ⟨⟩
    exact parseMode_lt hmode
  · split at h
    · obtain ⟨_, -, h⟩ := bind_eq_ok.mp h
      obtain ⟨mode, hmode, h⟩ := bind_eq_ok.mp h
      cases h
      refine ⟨hacc.1, ?_⟩
      rintro _ ⟨⟩
      exact parseMode_lt hmode
    · split at h
      · obtain ⟨_, -, h⟩ := bind_eq_ok.mp h
        obtain ⟨_, -, h⟩ := bind_eq_ok.mp h
        cases h
        exact hacc
      · cases h

theorem wellFormed_parseInstall {step : InstallStep} (hm : m.Sound)
    (h : parseInstall m payload line = .ok (target, step)) : (Step.install step).WellFormed env := by
  obtain ⟨habsolute, howner⟩ := parseInstall_args h
  obtain ⟨⟨src, rest⟩, -, h⟩ := bind_eq_ok.mp h
  obtain ⟨_, hsrc, h⟩ := bind_eq_ok.mp h
  obtain ⟨⟨positional, flags⟩, -, h⟩ := bind_eq_ok.mp h
  obtain ⟨args, hargs, h⟩ := bind_eq_ok.mp h
  obtain ⟨⟨dst, word⟩, -, h⟩ := bind_eq_ok.mp h
  obtain ⟨_, -, h⟩ := bind_eq_ok.mp h
  obtain ⟨_, -, h⟩ := bind_eq_ok.mp h
  have hsource := ensure_ok hsrc
  have hfits : args.Fits := foldlM_invariant InstallFlags.Fits
    (fun _ _ _ hacc hstep => installFlag_fits hacc hstep) ⟨by simp [IsMode], by simp [IsMode]⟩ hargs
  cases h
  exact .of_host not_false ⟨of_decide_eq_true hsource, habsolute, hfits.1, hfits.2, howner⟩ hm.named
    hm.timed

theorem backupFlag_keep {acc acc' : BackupFlags} {flag : Flag} (hacc : Positive acc.keep)
    (h : backupFlag line acc flag = .ok acc') : Positive acc'.keep := by
  unfold backupFlag at h
  repeat' split at h
  · obtain ⟨raw, -, h⟩ := bind_eq_ok.mp h
    obtain ⟨keep, hkeep, h⟩ := bind_eq_ok.mp h
    cases h
    rintro _ ⟨⟩
    unfold keepCount at hkeep
    split at hkeep
    · cases hkeep
    · cases hkeep
    · next hne _ =>
      rw [← Except.ok.inj hkeep]
      exact Nat.pos_of_ne_zero fun hzero => hne hzero
  · cases h
    exact hacc
  · obtain ⟨raw, -, h⟩ := bind_eq_ok.mp h
    obtain ⟨_, -, h⟩ := bind_eq_ok.mp h
    cases h
    exact hacc
  · obtain ⟨raw, -, h⟩ := bind_eq_ok.mp h
    cases h
    exact hacc
  · cases h

theorem wellFormed_parseBackup {step : BackupStep} (hm : m.Sound)
    (h : parseBackup m payload line = .ok (target, step)) : (Step.backup step).WellFormed env := by
  obtain ⟨hpaths, hservice, hdir⟩ := parseBackup_args h
  obtain ⟨⟨positional, flags⟩, -, h⟩ := bind_eq_ok.mp h
  obtain ⟨args, hargs, h⟩ := bind_eq_ok.mp h
  obtain ⟨_, hlength, h⟩ := bind_eq_ok.mp h
  obtain ⟨_, -, h⟩ := bind_eq_ok.mp h
  obtain ⟨_, -, h⟩ := bind_eq_ok.mp h
  obtain ⟨_, -, h⟩ := bind_eq_ok.mp h
  have htwo : 2 ≤ positional.length := of_decide_eq_true (ensure_ok hlength)
  have hsome : positional.dropLast ≠ [] :=
    List.ne_nil_of_length_pos (by rw [List.length_dropLast]; omega)
  have hkeep := foldlM_invariant (fun acc : BackupFlags => Positive acc.keep)
    (fun _ _ _ hacc hstep => backupFlag_keep hacc hstep) (by simp [Positive]) hargs
  cases h
  exact .of_host not_false ⟨hsome, hpaths, hkeep, hdir, hservice⟩ hm.named hm.timed

theorem wellFormed_parseCredstore {step : CredstoreStep} (hm : m.Sound)
    (h : parseCredstore m payload line = .ok (target, step)) : (Step.credstore step).WellFormed env := by
  have hargs := parseCredstore_args h
  obtain ⟨⟨positional, flags⟩, -, h⟩ := bind_eq_ok.mp h
  obtain ⟨_, -, h⟩ := bind_eq_ok.mp h
  obtain ⟨⟨raw, word⟩, -, h⟩ := bind_eq_ok.mp h
  obtain ⟨service, -, h⟩ := bind_eq_ok.mp h
  obtain ⟨_, -, h⟩ := bind_eq_ok.mp h
  cases h
  exact .of_host not_false hargs hm.named hm.timed

theorem wellFormed_parseUnitInventory {step : UnitInventoryStep} (hm : m.Sound)
    (h : parseUnitInventory m payload line = .ok (target, step)) :
    (Step.unitInventory step).WellFormed env := by
  obtain ⟨⟨positional, flags⟩, -, h⟩ := bind_eq_ok.mp h
  obtain ⟨_, -, h⟩ := bind_eq_ok.mp h
  cases h
  exact .of_host not_false trivial hm.named hm.timed

theorem helperFlag_absolute {acc acc' : HelperFlags} {flag : Flag} (hacc : Absolute acc.installPath)
    (h : helperFlag line acc flag = .ok acc') : Absolute acc'.installPath := by
  unfold helperFlag at h
  repeat' split at h
  · obtain ⟨raw, -, h⟩ := bind_eq_ok.mp h
    cases h
    exact hacc
  · obtain ⟨raw, -, h⟩ := bind_eq_ok.mp h
    cases h
    exact hacc
  · obtain ⟨raw, -, h⟩ := bind_eq_ok.mp h
    obtain ⟨_, habsolute, h⟩ := bind_eq_ok.mp h
    cases h
    exact ensure_ok habsolute
  · cases h

theorem wellFormed_parseHelper {step : HelperStep} (hm : m.Sound)
    (h : parseHelper m payload line = .ok (target, step)) : (Step.helper step).WellFormed env := by
  obtain ⟨⟨positional, flags⟩, -, h⟩ := bind_eq_ok.mp h
  obtain ⟨args, hargs, h⟩ := bind_eq_ok.mp h
  obtain ⟨_, -, h⟩ := bind_eq_ok.mp h
  obtain ⟨_, -, h⟩ := bind_eq_ok.mp h
  have hpath := foldlM_invariant (fun acc : HelperFlags => Absolute acc.installPath)
    (fun _ _ _ hacc hstep => helperFlag_absolute hacc hstep) (by rfl) hargs
  cases h
  exact .of_host not_false hpath hm.named hm.timed

theorem wellFormed_parseRelease {step : ReleaseStep} (hm : m.Sound)
    (h : parseRelease m payload line = .ok (target, step)) : (Step.release step).WellFormed env := by
  obtain ⟨⟨positional, flags⟩, -, h⟩ := bind_eq_ok.mp h
  obtain ⟨args, -, h⟩ := bind_eq_ok.mp h
  obtain ⟨⟨repo, word⟩, -, h⟩ := bind_eq_ok.mp h
  obtain ⟨_, hrepo, h⟩ := bind_eq_ok.mp h
  obtain ⟨_, -, h⟩ := bind_eq_ok.mp h
  obtain ⟨installedCmd, -, h⟩ := bind_eq_ok.mp h
  obtain ⟨asset, -, h⟩ := bind_eq_ok.mp h
  obtain ⟨toDir, -, h⟩ := bind_eq_ok.mp h
  obtain ⟨_, htoDir, h⟩ := bind_eq_ok.mp h
  obtain ⟨_, hbase, h⟩ := bind_eq_ok.mp h
  have hparts := ensure_ok hrepo
  have hscheme := ensure_ok hbase
  cases h
  refine .of_host not_false ⟨?_, ensure_ok htoDir, fun base hsome => ?_⟩ hm.named hm.timed
  · exact beq_iff_eq.mp (Bool.and_eq_true_iff.mp hparts).2
  · have hgiven : args.baseUrl = some base := hsome
    rw [hgiven] at hscheme
    simpa using hscheme

theorem safeUnits_isUnit {units units' : List String} (h : safeUnits units line = .ok units') :
    ∀ unit ∈ units', IsUnit unit := by
  unfold safeUnits at h
  split at h
  · next hfind =>
    rw [← Except.ok.inj h]
    refine List.forall_mem_map.mpr fun raw hraw => ⟨?_, endsWith_normalizeUnit raw⟩
    simpa using List.find?_eq_none.mp hfind raw hraw
  · cases h

theorem wellFormed_parseBuild {step : BuildStep} (hm : m.Sound)
    (h : parseBuild m payload line = .ok (target, step)) : (Step.build step).WellFormed env := by
  obtain ⟨⟨positional, flags⟩, -, h⟩ := bind_eq_ok.mp h
  obtain ⟨args, -, h⟩ := bind_eq_ok.mp h
  obtain ⟨⟨repo, word⟩, -, h⟩ := bind_eq_ok.mp h
  obtain ⟨_, hrepo, h⟩ := bind_eq_ok.mp h
  obtain ⟨_, -, h⟩ := bind_eq_ok.mp h
  obtain ⟨gitRef, -, h⟩ := bind_eq_ok.mp h
  obtain ⟨buildCmd, -, h⟩ := bind_eq_ok.mp h
  obtain ⟨_, hartifacts, h⟩ := bind_eq_ok.mp h
  obtain ⟨_, hdirs, h⟩ := bind_eq_ok.mp h
  obtain ⟨_, hworkdir, h⟩ := bind_eq_ok.mp h
  obtain ⟨_, habsolute, h⟩ := bind_eq_ok.mp h
  obtain ⟨units, hunits, h⟩ := bind_eq_ok.mp h
  have hrepo := of_decide_eq_true (ensure_ok hrepo)
  have hartifacts := ensure_ok hartifacts
  have hdirs := ensure_ok hdirs
  cases h
  refine .of_host not_false ⟨hrepo, by simpa using hartifacts, by simpa using hdirs,
    absolutePaths_ok habsolute, fun dir hdir => ?_, safeUnits_isUnit hunits⟩ hm.named hm.timed
  exact absolutePaths_ok hworkdir dir (Option.mem_toList.mpr hdir)

/-- The tools that were read: known ones, each once. -/
def IsTools (tools : List String) : Prop := tools.Nodup ∧ ∀ tool ∈ tools, isKnownTool tool = true

theorem toolPart_tools {tools tools' : List String} {part : String} (htools : IsTools tools)
    (h : toolPart line tools part = .ok tools') : IsTools tools' := by
  obtain ⟨_, hknown, h⟩ := bind_eq_ok.mp h
  have hpart := ensure_ok hknown
  rw [← Except.ok.inj h]
  split
  · exact htools
  · next hnew =>
    refine ⟨List.nodup_append.mpr ⟨htools.1, List.nodup_singleton part, fun tool htool other hother => ?_⟩,
      List.forall_mem_append.mpr ⟨htools.2, List.forall_mem_singleton.mpr hpart⟩⟩
    rw [List.mem_singleton.mp hother]
    rintro rfl
    exact hnew htool

theorem toolWord_tools {acc acc' : List String × Option String} {token : String}
    (hacc : IsTools acc.1) (h : toolWord line acc token = .ok acc') : IsTools acc'.1 := by
  unfold toolWord at h
  split at h
  · obtain ⟨_, -, h⟩ := bind_eq_ok.mp h
    cases h
    exact hacc
  · obtain ⟨tools, htools, h⟩ := bind_eq_ok.mp h
    cases h
    exact foldlM_invariant IsTools (fun _ _ _ hacc hstep => toolPart_tools hacc hstep) hacc htools

theorem wellFormed_parseToolchain {step : ToolchainStep} (hm : m.Sound)
    (h : parseToolchain m payload line = .ok (target, step)) : (Step.toolchain step).WellFormed env := by
  obtain ⟨⟨tools, explicit⟩, hwords, h⟩ := bind_eq_ok.mp h
  obtain ⟨_, hsome, h⟩ := bind_eq_ok.mp h
  obtain ⟨_, -, h⟩ := bind_eq_ok.mp h
  have hne := ensure_ok hsome
  have htools := foldlM_invariant (fun acc : List String × Option String => IsTools acc.1)
    (fun _ _ _ hacc hstep => toolWord_tools hacc hstep) ⟨List.nodup_nil, List.forall_mem_nil _⟩ hwords
  cases h
  exact .of_host not_false ⟨by simpa using hne, htools⟩ hm.named hm.timed

theorem wellFormed_parseImage {step : ImageStep} (hm : m.Sound)
    (h : parseImage m payload line = .ok (target, step)) : (Step.image step).WellFormed env := by
  obtain ⟨⟨positional, flags⟩, -, h⟩ := bind_eq_ok.mp h
  obtain ⟨prune, -, h⟩ := bind_eq_ok.mp h
  obtain ⟨⟨images, explicit⟩, -, h⟩ := bind_eq_ok.mp h
  obtain ⟨_, hsome, h⟩ := bind_eq_ok.mp h
  obtain ⟨_, -, h⟩ := bind_eq_ok.mp h
  have hne := ensure_ok hsome
  cases h
  exact .of_host not_false (by simpa [Step.Accepted] using hne) hm.named hm.timed

theorem copyFlag_globs {acc acc' : Bool × List String} {flag : Flag}
    (hacc : ∀ glob ∈ acc.2, glob ≠ "") (h : copyFlag line acc flag = .ok acc') :
    ∀ glob ∈ acc'.2, glob ≠ "" := by
  unfold copyFlag at h
  split at h
  · cases h
    exact hacc
  · split at h
    · obtain ⟨value, -, h⟩ := bind_eq_ok.mp h
      obtain ⟨_, hglob, h⟩ := bind_eq_ok.mp h
      have hne := of_decide_eq_true (ensure_ok hglob)
      cases h
      exact List.forall_mem_append.mpr ⟨hacc, List.forall_mem_singleton.mpr hne⟩
    · cases h

theorem parseCopy_args {c : CopyDirective} (h : parseCopy payload line = .ok c) :
    c.entry.src ≠ "" ∧ c.entry.dst ≠ "" ∧ ∀ glob ∈ c.excludes, glob ≠ "" := by
  obtain ⟨⟨src, rest⟩, -, h⟩ := bind_eq_ok.mp h
  obtain ⟨_, hsrc, h⟩ := bind_eq_ok.mp h
  obtain ⟨⟨positional, flags⟩, -, h⟩ := bind_eq_ok.mp h
  obtain ⟨⟨delete, excludes⟩, hflags, h⟩ := bind_eq_ok.mp h
  obtain ⟨last, -, h⟩ := bind_eq_ok.mp h
  obtain ⟨_, -, h⟩ := bind_eq_ok.mp h
  obtain ⟨_, hdst, h⟩ := bind_eq_ok.mp h
  have hsource := of_decide_eq_true (ensure_ok hsrc)
  have hdest := of_decide_eq_true (ensure_ok hdst)
  have hglobs := foldlM_invariant (fun acc : Bool × List String => ∀ glob ∈ acc.2, glob ≠ "")
    (fun _ _ _ hacc hstep => copyFlag_globs hacc hstep) (List.forall_mem_nil _) hflags
  cases h
  exact ⟨hsource, hdest, hglobs⟩

theorem parseExport_names {vars : List ExportVar} (h : State.parseExport payload line = .ok vars) :
    ∀ v ∈ vars, isValidVarName v.name = true := by
  obtain ⟨⟨positional, flags⟩, -, h⟩ := bind_eq_ok.mp h
  obtain ⟨_, -, h⟩ := bind_eq_ok.mp h
  obtain ⟨names, -, h⟩ := bind_eq_ok.mp h
  obtain ⟨_, -, h⟩ := bind_eq_ok.mp h
  split at h
  · cases h
  · next hfind =>
    rw [← Except.ok.inj h]
    refine List.forall_mem_map.mpr fun name hname => ?_
    simpa using List.find?_eq_none.mp hfind name hname

end Steps

end Shellflow
