import Shellflow.Dsl.Interpolate
import Shellflow.Dsl.Payload
import Shellflow.EnvHeader
import Shellflow.Executor.AssertCommands
import Shellflow.Lib.Fallible
import Shellflow.Lib.ShellWords

/-! The words of a host step: what its command hands to the helper on the target. -/
namespace Shellflow.HostStep
open ShellWords Fallible

structure HelperCall where
  verb : String
  args : List String
  fallback : String

/-- A flag is not quoted. -/
def argWord (arg : String) : String :=
  if Str.startsWith arg "--" then arg else shellQuoteSingle arg

def helperCommand (call : HelperCall) : String :=
  "if [ -x " ++ helperPath ++ " ]; then exec " ++ helperPath ++ " host " ++ call.verb ++
    String.ofList (call.args.flatMap fun arg => ' ' :: (argWord arg).toList) ++ "; fi; " ++
    call.fallback

def needsHelper (verb : String) : String :=
  s!"echo 'the target-side shellflow helper is required for `{verb}`: install it first with " ++
    "`@helper`' >&2; exit 1"

structure ServiceActions where
  enable : Bool
  restart : Bool
  reload : Bool
  wait : Bool
  verify : Bool
  forceStart : Bool

def flagWord (set : Bool) (word : String) : List String := if set then [word] else []

def serviceFallback (unit : String) (enable reload wait forceStart : Bool) (timeout : Nat) :
    String :=
  let enable := if enable then "$SC enable \"$u\"; " else ""
  let reload := if reload then "$SC reload \"$u\"; " else ""
  let force := if forceStart then "1" else "0"
  let wait :=
    if wait then
      s!"if [ \"$was\" = 1 ] || [ \"{force}\" = 1 ]; then " ++
        s!"d=$(( $(date +%s) + {timeout} )); " ++
        "while :; do " ++
        "if $SC is-active --quiet \"$u\"; then echo \"$u is active\"; break; fi; " ++
        "if $SC is-failed --quiet \"$u\"; then echo \"$u failed\" >&2; exit 1; fi; " ++
        "if [ \"$(date +%s)\" -ge \"$d\" ]; then " ++
        "echo \"timed out waiting for $u\" >&2; exit 3; " ++
        "fi; " ++
        "sleep 2; " ++
        "done; " ++
        "else echo \"$u was left stopped: not waiting for readiness\"; fi; "
    else ""
  s!"u={shellQuoteSingle unit}; " ++
    "if [ \"$(id -u)\" = 0 ]; then SC=systemctl; else SC='sudo -n systemctl'; fi; " ++
    "was=$($SC is-active \"$u\" 2>/dev/null || true); " ++
    "case \"$was\" in \"\"|inactive|unknown) was=0 ;; *) was=1 ;; esac; " ++
    "if command -v systemd-analyze >/dev/null 2>&1; then " ++
    "systemd-analyze verify \"$u\" >/dev/null 2>&1 " ++
    "|| \x7b echo \"unit $u failed verification\" >&2; exit 1; \x7d; " ++
    "fi; " ++
    "$SC daemon-reload; " ++
    enable ++
    reload ++
    "if [ \"$was\" = 1 ]; then $SC restart \"$u\"; " ++
    s!"elif [ \"{force}\" = 1 ]; then $SC start \"$u\"; " ++
    "else echo \"$u was not running: left it stopped\"; fi; " ++
    wait

def serviceCommand (unit : String) (actions : ServiceActions) (timeout : Nat) : HelperCall where
  verb := "service"
  args := [unit] ++ flagWord actions.enable "--enable" ++ flagWord actions.restart "--restart" ++
    flagWord actions.reload "--reload" ++ flagWord actions.wait "--wait" ++
    flagWord actions.verify "--verify" ++ flagWord actions.forceStart "--force-start" ++
    ["--timeout", toString timeout]
  fallback := serviceFallback unit actions.enable actions.reload actions.wait actions.forceStart
    timeout

def octal (n : Nat) : String := String.ofList (Nat.toDigits 8 n)

def installFallback (src dst : String) (mode : Option Nat) (owner : Option String) : String :=
  let mode := octal (mode.getD 420)
  let chown := match owner with
    | some owner => s!"chown {shellQuoteSingle owner} \"$t\" && "
    | none => ""
  s!"d={shellQuoteSingle dst}; s={shellQuoteSingle src}; " ++
    "dir=$(dirname \"$d\"); " ++
    "[ -d \"$dir\" ] || mkdir -p \"$dir\"; " ++
    "t=\"$dir/.$(basename \"$d\").shellflow-new\"; " ++
    s!"cat \"$s\" > \"$t\" && chmod {mode} \"$t\" && {chown}mv -f \"$t\" \"$d\""

/-- An option and its value. -/
def valueWords (flag : String) (value : Option String) : List String :=
  match value with
  | some value => [flag, value]
  | none => []

def installCommand (src dst : String) (mode : Option Nat) (owner : Option String)
    (dirMode : Option Nat) : HelperCall where
  verb := "install"
  args := [src, dst] ++ valueWords "--mode" (mode.map octal) ++ valueWords "--owner" owner ++
    valueWords "--dir-mode" (dirMode.map octal)
  fallback := installFallback src dst mode owner

def backupCommand (paths : List String) (service dir : Option String) (keep : Option Nat)
    (sealed : Bool) : HelperCall where
  verb := "backup"
  args := paths ++ valueWords "--service" service ++ valueWords "--dir" dir ++
    valueWords "--keep" (keep.map toString) ++ flagWord sealed "--seal"
  fallback := needsHelper "backup"

def credstoreCommand (service : String) (require : List String) : HelperCall where
  verb := "credstore"
  args := service :: (if require = [] then [] else ["--require", Str.join "," require])
  fallback := needsHelper "credstore"

def unitInventoryCommand : HelperCall := ⟨"inventory", [], needsHelper "unit_inventory"⟩

def defaultWaitSecs : Nat := 300

section Step
variable (vars : String → Option String) (rehearsal : Bool)

/-- Without a run there is nothing captured, and a path is left as it is. -/
def stepPath (path : String) : Except InterpolateError String :=
  if rehearsal then .ok path else interpolate path vars

/-- What a host step calls the helper with. -/
def hostCall : Step → Option (Except InterpolateError HelperCall)
  | .service s => some (.ok (serviceCommand s.unit
      ⟨s.enable, s.restart, s.reload, s.wait, s.verify, s.forceStart⟩
      (s.timeout.getD defaultWaitSecs)))
  | .install s => some do
      let src ← stepPath vars rehearsal s.src
      let dst ← stepPath vars rehearsal s.dst
      .ok (installCommand src dst s.mode s.owner s.dirMode)
  | .backup s => some do
      let paths ← s.paths.mapM (stepPath vars rehearsal)
      .ok (backupCommand paths s.service s.dir s.keep s.sealed)
  | .credstore s => some (.ok (credstoreCommand s.service s.require))
  | .unitInventory _ => some (.ok unitInventoryCommand)
  | _ => none

end Step

def plainWord (word : String) : Word := ⟨word.toList, word.toList⟩

def givenWord (arg : String) : Word := ⟨(argWord arg).toList, arg.toList⟩

def HelperCall.words (call : HelperCall) : List Word :=
  ["exec", helperPath, "host", call.verb].map plainWord ++ call.args.map givenWord

/-- The shell reads one test of the helper and one command that runs it, word by word, and the
fallback behind them. -/
def Intact (call : HelperCall) : Prop :=
  readConditional (helperCommand call).toList =
    some ⟨["[", "-x", helperPath, "]"].map String.toList,
      (["exec", helperPath, "host", call.verb] ++ call.args).map String.toList,
      ' ' :: call.fallback.toList⟩

theorem helperCommand_toList (call : HelperCall) :
    (helperCommand call).toList =
      conditionalText (["[", "-x", helperPath, "]"].map plainWord) call.words
        (' ' :: call.fallback.toList) := by
  unfold helperCommand
  simp [conditionalText, simpleCommand, HelperCall.words, plainWord, givenWord,
    List.flatMap_map]

section Words

theorem length_shellQuoteSingleChars (s : List Char) :
    s.length < (shellQuoteSingleChars s).length := by
  induction s with
  | nil => simp [shellQuoteSingleChars]
  | cons c s ih =>
    rw [shellQuoteSingleChars]
    split
    · simp; omega
    · simp; omega

theorem shellQuoteSingle_ne (arg : String) : (shellQuoteSingle arg).toList ≠ arg.toList := by
  intro h
  have hlen := congrArg List.length h
  have hlt := length_shellQuoteSingleChars arg.toList
  rw [shellQuoteSingle, String.toList_ofList, List.length_cons] at hlen
  omega

theorem beginsWord_shellQuoteSingle (arg : String) :
    (shellQuoteSingle arg).toList.head?.any beginsWord = true := by
  rw [shellQuoteSingle, String.toList_ofList]
  rfl

theorem givenWord_of_flag {arg : String} (h : Str.startsWith arg "--" = true) :
    givenWord arg = plainWord arg := by
  rw [givenWord, argWord, if_pos h, plainWord]

theorem givenWord_of_value {arg : String} (h : Str.startsWith arg "--" = false) :
    givenWord arg = ⟨(shellQuoteSingle arg).toList, arg.toList⟩ := by
  rw [givenWord, argWord, if_neg (by simp [h])]

theorem beginsWord_givenWord (arg : String) :
    (givenWord arg).written.head?.any beginsWord = true := by
  cases h : Str.startsWith arg "--" with
  | false =>
    rw [givenWord_of_value h]
    dsimp only
    exact beginsWord_shellQuoteSingle arg
  | true =>
    rw [givenWord_of_flag h, plainWord]
    obtain ⟨rest, hrest⟩ := List.isPrefixOf_iff_prefix.mp h
    rw [← hrest]
    rfl

theorem reads_givenWord (arg : String) : Reads (givenWord arg).written (givenWord arg).meant ∨
    (givenWord arg).written = (givenWord arg).meant := by
  cases h : Str.startsWith arg "--" with
  | false =>
    rw [givenWord_of_value h]
    dsimp only
    exact .inl (reads_shellQuoteSingle arg)
  | true =>
    rw [givenWord_of_flag h]
    exact .inr rfl

end Words

/-- A word that the command writes as it is. -/
def Fixed (word : String) : Prop :=
  word.toList.head?.any beginsWord = true ∧ isLiteral word.toList = true

theorem fixed_test : ∀ word ∈ ["[", "-x", helperPath, "]"], Fixed word := by
  simp only [List.mem_cons, List.not_mem_nil, or_false]
  rintro word (rfl | rfl | rfl | rfl)
  all_goals exact ⟨rfl, rfl⟩

theorem fixed_body {verb : String} (hverb : Fixed verb) :
    ∀ word ∈ ["exec", helperPath, "host", verb], Fixed word := by
  simp only [List.mem_cons, List.not_mem_nil, or_false]
  rintro word (rfl | rfl | rfl | rfl)
  · exact ⟨rfl, rfl⟩
  · exact ⟨rfl, rfl⟩
  · exact ⟨rfl, rfl⟩
  · exact hverb

/-- Only an argument that is passed like a flag can be torn. -/
theorem intact_iff_literal {call : HelperCall} (hverb : Fixed call.verb) :
    Intact call ↔ ∀ arg ∈ call.args, Str.startsWith arg "--" = true → isLiteral arg.toList = true := by
  have htest : (["[", "-x", helperPath, "]"].map plainWord).map (·.meant) =
      ["[", "-x", helperPath, "]"].map String.toList := by
    simp [plainWord]
  have hbody : call.words.map (·.meant) =
      (["exec", helperPath, "host", call.verb] ++ call.args).map String.toList := by
    simp [HelperCall.words, plainWord, givenWord, Function.comp_def]
  have hread := readConditional_iff (["[", "-x", helperPath, "]"].map plainWord) call.words
    (s := ' ' :: call.fallback.toList) (by simp)
    (List.forall_mem_map.mpr fun word hword => (fixed_test word hword).1)
    (List.forall_mem_map.mpr fun word hword => reads_of_isLiteral (fixed_test word hword).2)
    (List.forall_mem_append.mpr
      ⟨List.forall_mem_map.mpr fun word hword => (fixed_body hverb word hword).1,
        List.forall_mem_map.mpr fun arg _ => beginsWord_givenWord arg⟩)
    (List.forall_mem_append.mpr
      ⟨List.forall_mem_map.mpr fun _ _ => .inr rfl,
        List.forall_mem_map.mpr fun arg _ => reads_givenWord arg⟩)
  rw [Intact, helperCommand_toList, ← htest, ← hbody, hread, HelperCall.words,
    List.forall_mem_append, List.forall_mem_map, List.forall_mem_map]
  constructor
  · rintro ⟨-, hargs⟩ arg harg hflag
    have hgiven := hargs arg harg
    rw [givenWord_of_flag hflag] at hgiven
    exact hgiven rfl
  · intro hargs
    refine ⟨fun word hword _ => (fixed_body hverb word hword).2, fun arg harg => ?_⟩
    cases hflag : Str.startsWith arg "--" with
    | true =>
      rw [givenWord_of_flag hflag]
      exact fun _ => hargs arg harg hflag
    | false =>
      rw [givenWord_of_value hflag]
      dsimp only
      exact fun heq => absurd heq (shellQuoteSingle_ne arg)

section Literal

theorem isLiteral_of_nameChars {s : List Char} (h : ∀ c ∈ s, nameChar c = true) :
    isLiteral s = true := by
  induction s with
  | nil => rfl
  | cons c s ih =>
    obtain ⟨hc, hs⟩ := List.forall_mem_cons.mp h
    obtain ⟨hend, hquote, hexpands, hbracket⟩ := bare_of_nameChar hc
    simp [isLiteral, hend, hquote, hexpands, hbracket, ih hs]

theorem isLiteral_unit {unit : String} (h : isValidUnitName unit = true) :
    isLiteral unit.toList = true := by
  rw [isValidUnitName, Bool.and_eq_true, List.all_eq_true] at h
  apply isLiteral_of_nameChars
  intro c hc
  have hchar := h.2 c hc
  simp only [nameChar, Bool.or_eq_true] at hchar ⊢
  tauto

theorem nameChar_of_part {part : String} (h : (part ≠ "" && Str.all part fun c =>
    isAsciiAlphanumeric c || c == '-' || c == '_' || c == '.') = true) :
    ∀ c ∈ part.toList, nameChar c = true := by
  intro c hc
  rw [Bool.and_eq_true, Str.all, List.all_eq_true] at h
  have hchar := h.2 c hc
  simp only [nameChar, Bool.or_eq_true] at hchar ⊢
  tauto

theorem nameChar_of_optional {part : String} (h : (part = "" || (part ≠ "" && Str.all part fun c =>
    isAsciiAlphanumeric c || c == '-' || c == '_' || c == '.')) = true) :
    ∀ c ∈ part.toList, nameChar c = true := by
  rcases (Bool.or_eq_true _ _).mp h with hempty | hpart
  · simp [of_decide_eq_true hempty]
  · exact nameChar_of_part hpart

theorem isLiteral_of_parts {owner : String}
    (h : ∀ part ∈ Str.splitChar owner ':', ∀ c ∈ part.toList, nameChar c = true) :
    isLiteral owner.toList = true := by
  apply isLiteral_of_nameChars
  intro c hc
  rcases Str.mem_or_mem_splitChar ':' hc with rfl | ⟨part, hmem, hc⟩
  · rfl
  · exact h part hmem c hc

theorem isLiteral_owner {raw directive owner : String} {line : Nat}
    (h : parseOwner raw directive line = .ok owner) : isLiteral owner.toList = true := by
  simp only [parseOwner] at h
  split at h
  · next user hparts =>
    split at h
    · next hok =>
      cases h
      apply isLiteral_of_parts
      simpa [hparts] using nameChar_of_part hok
    · cases h
  · next user group hparts =>
    split at h
    · next hok =>
      cases h
      rw [Bool.and_eq_true, Bool.and_eq_true] at hok
      apply isLiteral_of_parts
      simpa [hparts] using ⟨nameChar_of_optional hok.1.1, nameChar_of_optional hok.1.2⟩
    · cases h
  · simp [invalidDirective] at h

/-- An argument that the shell reads as it is, quoted or not. -/
def Calm (arg : String) : Prop := Str.startsWith arg "--" = true → isLiteral arg.toList = true

theorem calm_of_head {arg : String} {c : Char} (h : arg.toList.head? = some c) (hc : c ≠ '-') :
    Calm arg := by
  intro hflag
  obtain ⟨rest, hrest⟩ := List.isPrefixOf_iff_prefix.mp hflag
  rw [← hrest] at h
  cases h
  exact absurd rfl hc

theorem calm_of_absolute {arg : String} (h : Str.startsWith arg "/" = true) : Calm arg := by
  obtain ⟨rest, hrest⟩ := List.isPrefixOf_iff_prefix.mp h
  exact calm_of_head (c := '/') (by rw [← hrest]; rfl) (by decide)

theorem calm_digits {b n : Nat} (hpos : 0 < b) (hb : b ≤ 10) : Calm (String.ofList (Nat.toDigits b n)) := by
  cases hdigits : Nat.toDigits b n with
  | nil => exact absurd hdigits Nat.toDigits_ne_nil
  | cons c s =>
    have hdigit : c.isDigit = true :=
      Nat.isDigit_of_mem_toDigits hpos hb (n := n) (by rw [hdigits]; exact List.mem_cons_self)
    refine calm_of_head (c := c) (by rw [String.toList_ofList]; rfl) ?_
    rintro rfl
    cases hdigit

theorem calm_flagWord {set : Bool} {word arg : String} (hword : isLiteral word.toList = true)
    (h : arg ∈ flagWord set word) : Calm arg := by
  cases set with
  | false => cases h
  | true =>
    rw [List.mem_singleton.mp h]
    exact fun _ => hword

theorem calm_valueWords {flag arg : String} {value : Option String}
    (hflag : isLiteral flag.toList = true) (hvalue : ∀ v, value = some v → Calm v)
    (h : arg ∈ valueWords flag value) : Calm arg := by
  cases value with
  | none => cases h
  | some v =>
    rcases List.mem_cons.mp h with rfl | h
    · exact fun _ => hflag
    · rw [List.mem_singleton.mp h]
      exact hvalue v rfl

end Literal

section Parsed
variable {m : StepMeta} {payload target : String} {line : Nat}

theorem safeUnit_valid {raw directive unit : String}
    (h : safeUnit raw directive line = .ok unit) : isValidUnitName unit = true := by
  obtain ⟨_, hvalid, h⟩ := bind_eq_ok.mp h
  rw [← Except.ok.inj h]
  exact ensure_ok hvalid

theorem safeService_valid {raw directive service : String}
    (h : safeService raw directive line = .ok service) : isValidUnitName service = true := by
  obtain ⟨_, hvalid, h⟩ := bind_eq_ok.mp h
  rw [← Except.ok.inj h]
  exact ensure_ok hvalid

theorem parseService_unit {step : ServiceStep}
    (h : parseService m payload line = .ok (target, step)) : isValidUnitName step.unit = true := by
  obtain ⟨⟨positional, flags⟩, -, h⟩ := bind_eq_ok.mp h
  obtain ⟨args, -, h⟩ := bind_eq_ok.mp h
  obtain ⟨⟨raw, word⟩, -, h⟩ := bind_eq_ok.mp h
  obtain ⟨unit, hunit, h⟩ := bind_eq_ok.mp h
  obtain ⟨_, -, h⟩ := bind_eq_ok.mp h
  cases h
  exact safeUnit_valid hunit

theorem installFlag_owner {acc acc' : InstallFlags} {flag : Flag}
    (hacc : ∀ owner, acc.owner = some owner → isLiteral owner.toList = true)
    (h : installFlag line acc flag = .ok acc') :
    ∀ owner, acc'.owner = some owner → isLiteral owner.toList = true := by
  unfold installFlag at h
  split at h
  · obtain ⟨_, -, h⟩ := bind_eq_ok.mp h
    obtain ⟨_, -, h⟩ := bind_eq_ok.mp h
    cases h
    exact hacc
  split at h
  · obtain ⟨_, -, h⟩ := bind_eq_ok.mp h
    obtain ⟨_, -, h⟩ := bind_eq_ok.mp h
    cases h
    exact hacc
  split at h
  · obtain ⟨_, -, h⟩ := bind_eq_ok.mp h
    obtain ⟨owner, howner, h⟩ := bind_eq_ok.mp h
    cases h
    rintro _ ⟨⟩
    exact isLiteral_owner howner
  · cases h

theorem parseInstall_args {step : InstallStep}
    (h : parseInstall m payload line = .ok (target, step)) :
    Str.startsWith step.dst "/" = true ∧
      ∀ owner, step.owner = some owner → isLiteral owner.toList = true := by
  obtain ⟨⟨src, rest⟩, -, h⟩ := bind_eq_ok.mp h
  obtain ⟨_, -, h⟩ := bind_eq_ok.mp h
  obtain ⟨⟨positional, flags⟩, -, h⟩ := bind_eq_ok.mp h
  obtain ⟨args, hargs, h⟩ := bind_eq_ok.mp h
  obtain ⟨⟨dst, word⟩, -, h⟩ := bind_eq_ok.mp h
  obtain ⟨_, hdst, h⟩ := bind_eq_ok.mp h
  obtain ⟨_, -, h⟩ := bind_eq_ok.mp h
  cases h
  exact ⟨ensure_ok hdst, foldlM_invariant (fun acc : InstallFlags =>
    ∀ owner, acc.owner = some owner → isLiteral owner.toList = true)
    (fun _ _ _ hacc hstep => installFlag_owner hacc hstep) (by simp) hargs⟩

theorem absolutePaths_ok {paths : List String} {directive : String} {reason : String → String}
    {u : Unit} (h : absolutePaths paths line directive reason = .ok u) :
    ∀ path ∈ paths, Str.startsWith path "/" = true := by
  unfold absolutePaths at h
  split at h
  · next hfind =>
    intro path hpath
    simpa using List.find?_eq_none.mp hfind path hpath
  · cases h

theorem backupFlag_service {acc acc' : BackupFlags} {flag : Flag}
    (hacc : ∀ service, acc.service = some service → isValidUnitName service = true)
    (h : backupFlag line acc flag = .ok acc') :
    ∀ service, acc'.service = some service → isValidUnitName service = true := by
  unfold backupFlag at h
  split at h
  · obtain ⟨_, -, h⟩ := bind_eq_ok.mp h
    obtain ⟨_, -, h⟩ := bind_eq_ok.mp h
    cases h
    exact hacc
  split at h
  · cases h
    exact hacc
  split at h
  · obtain ⟨raw, -, h⟩ := bind_eq_ok.mp h
    obtain ⟨_, hvalid, h⟩ := bind_eq_ok.mp h
    cases h
    rintro _ ⟨⟩
    exact ensure_ok hvalid
  split at h
  · obtain ⟨_, -, h⟩ := bind_eq_ok.mp h
    cases h
    exact hacc
  · cases h

theorem parseBackup_args {step : BackupStep}
    (h : parseBackup m payload line = .ok (target, step)) :
    (∀ path ∈ step.paths, Str.startsWith path "/" = true) ∧
    (∀ service, step.service = some service → isValidUnitName service = true) ∧
      ∀ dir, step.dir = some dir → Str.startsWith dir "/" = true := by
  obtain ⟨⟨positional, flags⟩, -, h⟩ := bind_eq_ok.mp h
  obtain ⟨args, hargs, h⟩ := bind_eq_ok.mp h
  obtain ⟨_, -, h⟩ := bind_eq_ok.mp h
  obtain ⟨_, -, h⟩ := bind_eq_ok.mp h
  obtain ⟨_, hpaths, h⟩ := bind_eq_ok.mp h
  obtain ⟨_, hdir, h⟩ := bind_eq_ok.mp h
  cases h
  refine ⟨absolutePaths_ok hpaths, ?_, ?_⟩
  · exact foldlM_invariant (fun acc : BackupFlags =>
      ∀ service, acc.service = some service → isValidUnitName service = true)
      (fun _ _ _ hacc hstep => backupFlag_service hacc hstep) (by simp) hargs
  · intro dir hsome
    exact absolutePaths_ok hdir dir (Option.mem_toList.mpr hsome)

theorem credstoreFlag_keys {acc acc' : List String} {flag : Flag}
    (hacc : ∀ key ∈ acc, isValidVarName key = true)
    (h : credstoreFlag line acc flag = .ok acc') : ∀ key ∈ acc', isValidVarName key = true := by
  unfold credstoreFlag at h
  split at h
  · obtain ⟨raw, -, h⟩ := bind_eq_ok.mp h
    refine foldlM_invariant (fun keys : List String => ∀ key ∈ keys, isValidVarName key = true)
      ?_ hacc h
    intro keys key keys' hkeys hstep
    obtain ⟨_, hvalid, hstep⟩ := bind_eq_ok.mp hstep
    cases hstep
    simpa [or_imp, forall_and] using ⟨hkeys, ensure_ok hvalid⟩
  · cases h

theorem parseCredstore_args {step : CredstoreStep}
    (h : parseCredstore m payload line = .ok (target, step)) :
    isValidUnitName step.service = true ∧ ∀ key ∈ step.require, isValidVarName key = true := by
  obtain ⟨⟨positional, flags⟩, -, h⟩ := bind_eq_ok.mp h
  obtain ⟨require, hrequire, h⟩ := bind_eq_ok.mp h
  obtain ⟨⟨raw, word⟩, -, h⟩ := bind_eq_ok.mp h
  obtain ⟨service, hservice, h⟩ := bind_eq_ok.mp h
  obtain ⟨_, -, h⟩ := bind_eq_ok.mp h
  cases h
  exact ⟨safeService_valid hservice, foldlM_invariant
    (fun keys : List String => ∀ key ∈ keys, isValidVarName key = true)
    (fun _ _ _ hkeys hstep => credstoreFlag_keys hkeys hstep) (by simp) hrequire⟩

/-- The host steps as the parser builds them. -/
inductive Parsed : Step → Prop
  | service {m payload line target step}
    (h : parseService m payload line = .ok (target, step)) : Parsed (.service step)
  | install {m payload line target step}
    (h : parseInstall m payload line = .ok (target, step)) : Parsed (.install step)
  | backup {m payload line target step}
    (h : parseBackup m payload line = .ok (target, step)) : Parsed (.backup step)
  | credstore {m payload line target step}
    (h : parseCredstore m payload line = .ok (target, step)) : Parsed (.credstore step)
  | unitInventory {m payload line target step}
    (h : parseUnitInventory m payload line = .ok (target, step)) : Parsed (.unitInventory step)

end Parsed

section Call
variable {vars : String → Option String} {rehearsal : Bool} {call : HelperCall}

theorem stepPath_absolute {path out : String} (h : Str.startsWith path "/" = true)
    (hpath : stepPath vars rehearsal path = .ok out) : Str.startsWith out "/" = true := by
  cases rehearsal with
  | true =>
    cases hpath
    exact h
  | false =>
    obtain ⟨rest, hrest⟩ := List.isPrefixOf_iff_prefix.mp h
    change interpolate path vars = .ok out at hpath
    rw [interpolate, ← hrest] at hpath
    obtain ⟨chars, hchars, rfl⟩ := map_eq_ok.mp hpath
    change interpolateFrom vars path ('/' :: rest) = .ok chars at hchars
    rw [interpolateFrom] at hchars
    · obtain ⟨tail, -, hchars⟩ := bind_eq_ok.mp hchars
      cases hchars
      simp [Str.startsWith]
    · simp
    · simp

theorem calm_join {keys : List String} (hne : keys ≠ [])
    (h : ∀ key ∈ keys, isValidVarName key = true) : Calm (Str.join "," keys) := by
  obtain ⟨key, keys, rfl⟩ := List.exists_cons_of_ne_nil hne
  have hkey := h key List.mem_cons_self
  unfold isValidVarName at hkey
  cases hchars : key.toList with
  | nil => simp [hchars] at hkey
  | cons c rest =>
    simp only [hchars, Bool.and_eq_true] at hkey
    have hhead : (Str.join "," (key :: keys)).toList.head? = some c := by
      cases keys with
      | nil => simp [Str.join, hchars]
      | cons next keys => simp [Str.join, hchars, List.intercalate]
    refine calm_of_head hhead ?_
    rintro rfl
    exact absurd hkey.1 (by decide)

theorem intact_serviceCommand {unit : String} (hunit : isValidUnitName unit = true)
    (actions : ServiceActions) (timeout : Nat) : Intact (serviceCommand unit actions timeout) := by
  refine (intact_iff_literal (show Fixed "service" from ⟨rfl, rfl⟩)).mpr fun arg harg => ?_
  change Calm arg
  simp only [serviceCommand, List.mem_append, List.mem_cons, List.not_mem_nil, or_false] at harg
  rcases harg with ((((((rfl | h) | h) | h) | h) | h) | h) | rfl | rfl
  · exact fun _ => isLiteral_unit hunit
  · exact calm_flagWord rfl h
  · exact calm_flagWord rfl h
  · exact calm_flagWord rfl h
  · exact calm_flagWord rfl h
  · exact calm_flagWord rfl h
  · exact calm_flagWord rfl h
  · exact fun _ => rfl
  · rw [Nat.toString_eq_repr, Nat.repr_eq_ofList_toDigits]
    exact calm_digits (by decide) (by decide)

/-- Only the source of an install reaches the helper unchecked. -/
theorem intact_installCommand_iff {src dst : String} {mode dirMode : Option Nat}
    {owner : Option String} (hdst : Str.startsWith dst "/" = true)
    (howner : ∀ o, owner = some o → isLiteral o.toList = true) :
    Intact (installCommand src dst mode owner dirMode) ↔ Calm src := by
  have hoctal : ∀ mode : Option Nat, ∀ v, mode.map octal = some v → Calm v := by
    intro mode v hv
    obtain ⟨n, -, rfl⟩ := Option.map_eq_some_iff.mp hv
    exact calm_digits (by decide) (by decide)
  rw [intact_iff_literal (show Fixed "install" from ⟨rfl, rfl⟩)]
  constructor
  · exact fun h => h src List.mem_cons_self
  · intro hsrc arg harg
    change Calm arg
    simp only [installCommand, List.mem_append, List.mem_cons, List.not_mem_nil, or_false] at harg
    rcases harg with (((rfl | rfl) | h) | h) | h
    · exact hsrc
    · exact calm_of_absolute hdst
    · exact calm_valueWords rfl (hoctal mode) h
    · exact calm_valueWords rfl (fun o ho _ => howner o ho) h
    · exact calm_valueWords rfl (hoctal dirMode) h

theorem intact_backupCommand {paths : List String} {service dir : Option String}
    {keep : Option Nat} {sealed : Bool}
    (hpaths : ∀ path ∈ paths, Str.startsWith path "/" = true)
    (hservice : ∀ s, service = some s → isValidUnitName s = true)
    (hdir : ∀ d, dir = some d → Str.startsWith d "/" = true) :
    Intact (backupCommand paths service dir keep sealed) := by
  refine (intact_iff_literal (show Fixed "backup" from ⟨rfl, rfl⟩)).mpr fun arg harg => ?_
  change Calm arg
  simp only [backupCommand, List.mem_append] at harg
  rcases harg with (((h | h) | h) | h) | h
  · exact calm_of_absolute (hpaths arg h)
  · exact calm_valueWords rfl (fun s hs _ => isLiteral_unit (hservice s hs)) h
  · exact calm_valueWords rfl (fun d hd => calm_of_absolute (hdir d hd)) h
  · refine calm_valueWords rfl (fun v hv => ?_) h
    obtain ⟨n, -, rfl⟩ := Option.map_eq_some_iff.mp hv
    rw [Nat.toString_eq_repr, Nat.repr_eq_ofList_toDigits]
    exact calm_digits (by decide) (by decide)
  · exact calm_flagWord rfl h

theorem intact_credstoreCommand {service : String} {require : List String}
    (hservice : isValidUnitName service = true) (hkeys : ∀ key ∈ require, isValidVarName key = true) :
    Intact (credstoreCommand service require) := by
  refine (intact_iff_literal (show Fixed "credstore" from ⟨rfl, rfl⟩)).mpr fun arg harg => ?_
  change Calm arg
  rcases List.mem_cons.mp harg with rfl | h
  · exact fun _ => isLiteral_unit hservice
  · split at h
    · cases h
    · next hne =>
      rcases List.mem_cons.mp h with rfl | h
      · exact fun _ => rfl
      · rw [List.mem_singleton.mp h]
        exact calm_join hne hkeys

/-- The source of an install, with the captured variables in it, is no option, or an option that
holds nothing the shell reads otherwise. -/
def CalmSource (vars : String → Option String) (rehearsal : Bool) : Step → Prop
  | .install s => ∀ src, stepPath vars rehearsal s.src = .ok src → Calm src
  | _ => True

theorem helper_words_intact_iff {step : Step} (hparsed : Parsed step)
    (hcall : hostCall vars rehearsal step = some (.ok call)) :
    Intact call ↔ CalmSource vars rehearsal step := by
  cases hparsed with
  | service h =>
    cases hcall
    exact iff_of_true (intact_serviceCommand (parseService_unit h) _ _) trivial
  | install h =>
    obtain ⟨hdst, howner⟩ := parseInstall_args h
    obtain ⟨src, hsrc, hcall⟩ := bind_eq_ok.mp (Option.some.inj hcall)
    obtain ⟨dst, hpath, hcall⟩ := bind_eq_ok.mp hcall
    cases hcall
    rw [intact_installCommand_iff (stepPath_absolute hdst hpath) howner]
    simp [CalmSource, hsrc]
  | backup h =>
    obtain ⟨hpaths, hservice, hdir⟩ := parseBackup_args h
    obtain ⟨paths, hmap, hcall⟩ := bind_eq_ok.mp (Option.some.inj hcall)
    cases hcall
    refine iff_of_true (intact_backupCommand (fun path hpath => ?_) hservice hdir) trivial
    obtain ⟨given, hgiven, hread⟩ := exists_of_mem_mapM hmap hpath
    exact stepPath_absolute (hpaths given hgiven) hread
  | credstore h =>
    obtain ⟨hservice, hkeys⟩ := parseCredstore_args h
    cases hcall
    exact iff_of_true (intact_credstoreCommand hservice hkeys) trivial
  | unitInventory h =>
    cases hcall
    exact iff_of_true ((intact_iff_literal (show Fixed "inventory" from ⟨rfl, rfl⟩)).mpr (by simp [unitInventoryCommand])) trivial

/-- A unit is handed over whole. -/
theorem helper_words_intact_service :
    Intact (serviceCommand "web.service" ⟨true, false, false, false, false, false⟩ 300) :=
  (@helper_words_intact_iff (fun _ => none) false _
    (.service ⟨none, .mkAt "h" 1, "web.service", true, false, false, false, false, false, none⟩)
    (@Parsed.service ⟨none, none, none⟩ "web @h --enable" 1 "h" _ rfl) rfl).mpr trivial

/-- A captured source that ends the call of the helper and starts a command of its own. -/
def capturedSource (var : String) : Option String := if var = "SRC" then some "--x; id" else none

theorem interpolate_capturedSource : interpolate "$SRC" capturedSource = .ok "--x; id" := by
  have hvalue : referenceText capturedSource "$SRC" ['S', 'R', 'C'] ['$', 'S', 'R', 'C'] =
      .ok "--x; id".toList := by
    decide +kernel
  have hname : ['S', 'R', 'C'].takeWhile isNameChar = ['S', 'R', 'C'] := by decide
  have hrest : ['S', 'R', 'C'].dropWhile isNameChar = [] := by decide
  have hrun : interpolateFrom capturedSource "$SRC" ['$', 'S', 'R', 'C'] = .ok "--x; id".toList := by
    rw [interpolateFrom, hname, hrest, hvalue, interpolateFrom]
    · rfl
    · simp
  rw [interpolate]
  change (interpolateFrom _ _ ['$', 'S', 'R', 'C']).map String.ofList = _
  rw [hrun]
  exact congrArg Except.ok String.ofList_toList

/-- An interpolated source can add a command. -/
theorem install_source_adds_a_command :
    ¬ ∀ (step : Step) (vars : String → Option String) (call : HelperCall), Parsed step →
      hostCall vars false step = some (.ok call) → Intact call := by
  intro h
  have hcall : hostCall capturedSource false (.install ⟨none, .mkAt "web" 1, "$SRC", "/etc/f", none,
      none, none, none⟩) = some (.ok (installCommand "--x; id" "/etc/f" none none none)) := by
    have hdst : interpolate "/etc/f" capturedSource = .ok "/etc/f" := by
      rw [interpolate, interpolateFrom_of_noDollar _ _ (by decide)]
      rfl
    change some (interpolate "$SRC" capturedSource >>= fun src =>
      interpolate "/etc/f" capturedSource >>= fun dst =>
        .ok (installCommand src dst none none none)) = _
    rw [interpolate_capturedSource, hdst]
    rfl
  have hintact := h _ capturedSource _
    (@Parsed.install ⟨none, none, none⟩ "$SRC -> /etc/f @web" 1 "web" _ rfl) hcall
  rw [intact_installCommand_iff rfl (by simp)] at hintact
  exact absurd (hintact rfl) (by decide)

end Call

end Shellflow.HostStep
