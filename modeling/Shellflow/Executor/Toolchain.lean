import Shellflow.Executor.Results
import Shellflow.Lib.AndOr

/-! The toolchain step: every named tool updates through its own manager, and a failed update is to
fail the step. -/
namespace Shellflow.Toolchain
open AndOr Results

inductive Tool where
  | os | aur | rustup | cargo | go | npm | pipx | uv | foundry | proto | gh
  deriving DecidableEq

def Tool.name : Tool → String
  | os => "os"
  | aur => "aur"
  | rustup => "rustup"
  | cargo => "cargo"
  | go => "go"
  | npm => "npm"
  | pipx => "pipx"
  | uv => "uv"
  | foundry => "foundry"
  | proto => "proto"
  | gh => "gh"

abbrev Argv := List String

/-- What is installed, what runs, and how each command ends. -/
structure Target where
  has : String → Bool
  opsAur : Option String
  anvilRuns : Bool
  mktemp : Bool
  outcome : Argv → Nat

section Steps
variable (target : Target)

/-- An update command; the state is the list of those that ran. -/
def exec (argv : Argv) : Command (List Argv) := fun ran => ⟨target.outcome argv, false, ran ++ [argv]⟩

def sfwHave (name : String) : Command (List Argv) := test (target.has name)

/-- `echo '(…, skip)'; return 0` -/
def skip : Command (List Argv) := seq ok (ret 0)

def sudoPacman : Argv := ["sudo", "pacman", "-Syyu", "--noconfirm"]
def aptUpdate : Argv := ["sudo", "apt-get", "update"]
def aptUpgrade : Argv := ["sudo", "DEBIAN_FRONTEND=noninteractive", "apt-get", "upgrade", "-y"]
def dnfUpgrade : Argv := ["sudo", "dnf", "upgrade", "-y"]
def paru : Argv := ["paru", "-Syyu", "--noconfirm"]
def yay : Argv := ["yay", "-Syyu", "--noconfirm"]
def rustupUpdate : Argv := ["rustup", "update"]
def rustupComponents : Argv := ["rustup", "component", "add", "clippy", "rustfmt"]
def cargoList : Argv := ["cargo", "install", "--list"]
def goVersion : Argv := ["go", "version"]
def npmUpdate : Argv := ["npm", "update", "-g"]
def pipxUpgrade : Argv := ["pipx", "upgrade-all"]
def uvUpgrade : Argv := ["uv", "tool", "upgrade", "--all"]
def foundryupSelf : Argv := ["foundryup", "--update"]
def foundryup : Argv := ["foundryup"]
def protoOutdated : Argv :=
  ["proto", "outdated", "--config-mode", "global", "--update", "--latest", "--yes"]
def protoInstall : Argv := ["proto", "install", "--config-mode", "global"]
def ghUpgrade : Argv := ["gh", "extension", "upgrade", "--all"]

def stepOs : Command (List Argv) :=
  ifElse (sfwHave target "pacman") (exec target sudoPacman)
    (ifElse (sfwHave target "apt-get") (andThen (exec target aptUpdate) (exec target aptUpgrade))
      (ifElse (sfwHave target "dnf") (exec target dnfUpgrade) skip))

/-- `$\x7bOPS_AUR:-1\x7d` -/
def aurSwitch : String :=
  match target.opsAur with
  | none => "1"
  | some value => if value = "" then "1" else value

def stepAur : Command (List Argv) :=
  seq (ifThen (test (aurSwitch target == "0")) skip)
    (ifElse (sfwHave target "paru") (exec target paru)
      (ifElse (sfwHave target "yay") (exec target yay) skip))

/-- A body behind the test for its binary. -/
def unlessMissing (name : String) (body : Command (List Argv)) : Command (List Argv) :=
  seq (ifThen (test (!target.has name)) skip) body

def stepRustup : Command (List Argv) :=
  unlessMissing target "rustup"
    (orElse (andThen (exec target rustupUpdate) (exec target rustupComponents)) ok)

def stepCargo : Command (List Argv) :=
  unlessMissing target "cargo" (seq (orElse (exec target cargoList) ok) ok)

def stepGo : Command (List Argv) := unlessMissing target "go" (exec target goVersion)

def stepNpm : Command (List Argv) := unlessMissing target "npm" (exec target npmUpdate)

def stepPipx : Command (List Argv) :=
  unlessMissing target "pipx" (orElse (exec target pipxUpgrade) ok)

def stepUv : Command (List Argv) := unlessMissing target "uv" (orElse (exec target uvUpgrade) ok)

def stepFoundry : Command (List Argv) :=
  unlessMissing target "foundryup"
    (seq (orElse (exec target foundryupSelf) ok)
      (seq (ifThen (test target.anvilRuns) skip) (exec target foundryup)))

def stepProto : Command (List Argv) :=
  unlessMissing target "proto"
    (seq (orElse (exec target protoOutdated) ok) (exec target protoInstall))

def stepGh : Command (List Argv) := unlessMissing target "gh" (orElse (exec target ghUpgrade) ok)

def step : Tool → Command (List Argv)
  | .os => stepOs target
  | .aur => stepAur target
  | .rustup => stepRustup target
  | .cargo => stepCargo target
  | .go => stepGo target
  | .npm => stepNpm target
  | .pipx => stepPipx target
  | .uv => stepUv target
  | .foundry => stepFoundry target
  | .proto => stepProto target
  | .gh => stepGh target

end Steps

structure ToolchainRun where
  status : Nat
  report : List String
  tools : List Tool
  ran : List (Tool × Argv)

/-- The results file, the tools whose body was called and the update commands that ran. -/
structure Progress where
  results : List String
  tools : List Tool
  ran : List (Tool × Argv)

def sfwRun (target : Target) (p : Progress) (tool : Tool) : Progress :=
  let r := call (step target tool) []
  ⟨p.results ++ [record (if r.status = 0 then "OK" else "FAIL") tool.name], p.tools ++ [tool],
    p.ran ++ r.state.map fun argv => (tool, argv)⟩

def toolchainCommand (target : Target) (tools : List Tool) : ToolchainRun :=
  if !target.mktemp then ⟨1, [], [], []⟩
  else
    let p := tools.foldl (sfwRun target) ⟨[], [], []⟩
    ⟨exitStatus p.results, summary 4 p.results, p.tools, p.ran⟩

/-- Any failed update fails the step, nothing else does, and every tool has its turn. -/
def ReportsFailures (target : Target) (tools : List Tool) (run : ToolchainRun) : Prop :=
  (run.status ≠ 0 ↔ ∃ entry ∈ run.ran, target.outcome entry.2 ≠ 0) ∧ run.tools = tools

section Failures
variable (target : Target)

/-- An update command fails whose status the body ends with. -/
def Heard : Tool → Prop
  | .os =>
    if target.has "pacman" then target.outcome sudoPacman ≠ 0
    else if target.has "apt-get" then target.outcome aptUpdate ≠ 0 ∨ target.outcome aptUpgrade ≠ 0
    else target.has "dnf" ∧ target.outcome dnfUpgrade ≠ 0
  | .aur => aurSwitch target ≠ "0" ∧
    if target.has "paru" then target.outcome paru ≠ 0
    else target.has "yay" ∧ target.outcome yay ≠ 0
  | .go => target.has "go" ∧ target.outcome goVersion ≠ 0
  | .npm => target.has "npm" ∧ target.outcome npmUpdate ≠ 0
  | .foundry => target.has "foundryup" ∧ target.anvilRuns = false ∧ target.outcome foundryup ≠ 0
  | .proto => target.has "proto" ∧ target.outcome protoInstall ≠ 0
  | _ => False

/-- An update command fails in front of `|| true`. -/
def Hidden : Tool → Prop
  | .rustup => target.has "rustup" ∧
    (target.outcome rustupUpdate ≠ 0 ∨ target.outcome rustupComponents ≠ 0)
  | .cargo => target.has "cargo" ∧ target.outcome cargoList ≠ 0
  | .pipx => target.has "pipx" ∧ target.outcome pipxUpgrade ≠ 0
  | .uv => target.has "uv" ∧ target.outcome uvUpgrade ≠ 0
  | .foundry => target.has "foundryup" ∧ target.outcome foundryupSelf ≠ 0
  | .proto => target.has "proto" ∧ target.outcome protoOutdated ≠ 0
  | .gh => target.has "gh" ∧ target.outcome ghUpgrade ≠ 0
  | _ => False

end Failures

section Bodies
variable {target : Target}

@[simp] theorem exec_apply (argv : Argv) (ran : List Argv) :
    exec target argv ran = ⟨target.outcome argv, false, ran ++ [argv]⟩ := rfl

@[simp] theorem skip_apply (ran : List Argv) : skip ran = ⟨0, true, ran⟩ := rfl

theorem unlessMissing_apply (name : String) (body : Command (List Argv)) (ran : List Argv) :
    unlessMissing target name body ran =
      if target.has name then body ran else ⟨0, true, ran⟩ := by
  cases h : target.has name <;> simp [unlessMissing, seq, h]

/-- One command in front of `|| true`. -/
theorem hidden_apply (argv : Argv) (ran : List Argv) :
    orElse (exec target argv) ok ran = ⟨0, false, ran ++ [argv]⟩ := by
  by_cases h : target.outcome argv = 0 <;> simp [orElse, h]

theorem andThen_apply (a b : Argv) (ran : List Argv) :
    andThen (exec target a) (exec target b) ran =
      if target.outcome a = 0 then ⟨target.outcome b, false, ran ++ [a, b]⟩
      else ⟨target.outcome a, false, ran ++ [a]⟩ := by
  by_cases h : target.outcome a = 0 <;> simp [andThen, h]

/-- A body fails exactly ifThen a command fails that is not in front of `|| true`, and these are the
commands that ran and failed next to the hidden ones. -/
theorem step_spec (tool : Tool) :
    ((call (step target tool) []).status ≠ 0 ↔ Heard target tool) ∧
      ((∃ argv ∈ (call (step target tool) []).state, target.outcome argv ≠ 0) ↔
        Heard target tool ∨ Hidden target tool) := by
  cases tool with
  | os =>
    simp only [call, step, stepOs, sfwHave, ifElse_test, andThen_apply, Heard, Hidden]
    split_ifs <;> simp_all
  | aur =>
    by_cases h : aurSwitch target = "0" <;>
      simp only [call, step, stepAur, sfwHave, seq, ifThen_test, ifElse_test, Heard, Hidden, h] <;>
      (split_ifs <;> simp_all)
  | rustup =>
    simp only [call, step, stepRustup, unlessMissing_apply, orElse, andThen_apply, Heard, Hidden]
    split_ifs <;> simp_all
  | cargo =>
    simp only [call, step, stepCargo, unlessMissing_apply, seq, hidden_apply, Heard, Hidden]
    split_ifs <;> simp_all
  | go =>
    simp only [call, step, stepGo, unlessMissing_apply, exec_apply, Heard, Hidden]
    split_ifs <;> simp_all
  | npm =>
    simp only [call, step, stepNpm, unlessMissing_apply, exec_apply, Heard, Hidden]
    split_ifs <;> simp_all
  | pipx =>
    simp only [call, step, stepPipx, unlessMissing_apply, hidden_apply, Heard, Hidden]
    split_ifs <;> simp_all
  | uv =>
    simp only [call, step, stepUv, unlessMissing_apply, hidden_apply, Heard, Hidden]
    split_ifs <;> simp_all
  | foundry =>
    simp only [call, step, stepFoundry, unlessMissing_apply, seq, hidden_apply, ifThen_test, Heard,
      Hidden]
    split_ifs <;> simp_all [or_comm]
  | proto =>
    simp only [call, step, stepProto, unlessMissing_apply, seq, hidden_apply, exec_apply, Heard,
      Hidden]
    split_ifs <;> simp_all [or_comm]
  | gh =>
    simp only [call, step, stepGh, unlessMissing_apply, hidden_apply, Heard, Hidden]
    split_ifs <;> simp_all

end Bodies

section Command
variable {target : Target}

def verdict (target : Target) (tool : Tool) : String :=
  if (call (step target tool) []).status = 0 then "OK" else "FAIL"

theorem foldl_sfwRun (tools : List Tool) (p : Progress) :
    tools.foldl (sfwRun target) p = ⟨p.results ++ tools.map fun t => record (verdict target t) t.name,
      p.tools ++ tools, p.ran ++ tools.flatMap fun t =>
        (call (step target t) []).state.map fun argv => (t, argv)⟩ := by
  induction tools generalizing p with
  | nil => simp
  | cons t tools ih =>
    rw [List.foldl_cons, ih]
    simp [sfwRun, verdict]

theorem failed_iff (tool : Tool) :
    Str.startsWith (record (verdict target tool) tool.name) "FAIL" = true ↔ Heard target tool := by
  rw [← (step_spec tool).1]
  unfold verdict
  split <;> simp [*, Str.startsWith, record, List.isPrefixOf]

theorem exitStatus_ne_zero (tools : List Tool) :
    exitStatus (tools.map fun t => record (verdict target t) t.name) ≠ 0 ↔
      ∃ t ∈ tools, Heard target t := by
  rw [Ne, exitStatus_eq_zero]
  simp only [List.forall_mem_map, Bool.eq_false_iff, ne_eq, failed_iff]
  simp

theorem ran_failed (tools : List Tool) :
    (∃ entry ∈ tools.flatMap fun t => (call (step target t) []).state.map fun argv => (t, argv),
      target.outcome entry.2 ≠ 0) ↔
      ∃ t ∈ tools, Heard target t ∨ Hidden target t := by
  simp only [← (step_spec _).2, List.mem_flatMap, List.mem_map]
  constructor
  · rintro ⟨_, ⟨t, ht, argv, hargv, rfl⟩, hfailed⟩
    exact ⟨t, ht, argv, hargv, hfailed⟩
  · rintro ⟨t, ht, argv, hargv, hfailed⟩
    exact ⟨(t, argv), ⟨t, ht, argv, hargv, rfl⟩, hfailed⟩

theorem toolchainCommand_eq (h : target.mktemp = true) (tools : List Tool) :
    toolchainCommand target tools =
      ⟨exitStatus (tools.map fun t => record (verdict target t) t.name),
        summary 4 (tools.map fun t => record (verdict target t) t.name), tools,
        tools.flatMap fun t => (call (step target t) []).state.map fun argv => (t, argv)⟩ := by
  simp [toolchainCommand, h, foldl_sfwRun]

end Command

/-- A failure in front of `|| true` stays unreported unless another one fails the step. -/
theorem toolchain_reports_iff (target : Target) (tools : List Tool) :
    ReportsFailures target tools (toolchainCommand target tools) ↔
      target.mktemp = true ∧
        ((∃ t ∈ tools, Hidden target t) → ∃ t ∈ tools, Heard target t) := by
  cases hmktemp : target.mktemp with
  | false => simp [ReportsFailures, toolchainCommand, hmktemp]
  | true =>
    rw [toolchainCommand_eq hmktemp, ReportsFailures, exitStatus_ne_zero, ran_failed]
    constructor
    · intro h
      refine ⟨rfl, fun hhidden => h.1.mpr ?_⟩
      obtain ⟨t, ht, hfailed⟩ := hhidden
      exact ⟨t, ht, .inr hfailed⟩
    · intro h
      refine ⟨⟨fun hheard => ?_, fun hfailed => ?_⟩, rfl⟩
      · obtain ⟨t, ht, hfailed⟩ := hheard
        exact ⟨t, ht, .inl hfailed⟩
      · obtain ⟨t, ht, hheard | hhidden⟩ := hfailed
        · exact ⟨t, ht, hheard⟩
        · exact h.2 ⟨t, ht, hhidden⟩

/-- Only `uv` is there, and its upgrade fails. -/
def brokenUv : Target where
  has name := name == "uv"
  opsAur := none
  anvilRuns := false
  mktemp := true
  outcome argv := if argv = uvUpgrade then 1 else 0

/-- The upgrade of the only tool fails, and the step succeeds. -/
theorem failed_uv_upgrade_succeeds :
    (toolchainCommand brokenUv [.uv]).status = 0 ∧
      ¬ ReportsFailures brokenUv [.uv] (toolchainCommand brokenUv [.uv]) := by
  have hstatus : (toolchainCommand brokenUv [.uv]).status = 0 := by decide
  have hran : (toolchainCommand brokenUv [.uv]).ran = [(.uv, uvUpgrade)] := by decide
  refine ⟨hstatus, fun h => h.1.mpr ?_ hstatus⟩
  rw [hran]
  exact ⟨_, List.mem_singleton_self _, by decide⟩

end Shellflow.Toolchain
