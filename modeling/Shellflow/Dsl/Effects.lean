import Shellflow.Lib.Fallible
import Shellflow.Dsl.Parser

/-! What each directive does to the state of the scanner, said once for the whole table. -/
namespace Shellflow
open Fallible

/-- A script block of a plan, as opposed to a step a directive adds. -/
def Step.IsBlock : Step → Prop
  | .localBlock _ => True
  | .remote _ => True
  | _ => False

namespace State

/-- The step of a directive that runs on hosts, and the directive's keyword. -/
def hostDirectives : List String :=
  ["wait_active", "reload", "service", "install", "backup", "credstore", "unit_inventory",
    "helper", "release", "build", "toolchain", "image"]

def assertDirectives : List String :=
  ["assert", "assert_health", "assert_port", "assert_port_free", "assert_enabled",
    "assert_rendered", "assert_no_leak", "assert_digest", "assert_credstore"]

inductive Effect (st : State) (payload : String) (line : Nat) : String → State → Prop
  | server {server : String × SshSpec} (h : parseServer st.plan payload line = .ok server) :
      Effect st payload line "server" { st with plan := { st.plan with
        servers := Assoc.insertSorted nameLe server st.plan.servers } }
  | group {group : String × List String} (h : parseGroup st.plan payload line = .ok group) :
      Effect st payload line "group" { st with
        plan := { st.plan with groups := Assoc.insertSorted nameLe group st.plan.groups }
        groupLines := st.groupLines ++ [(group.1, line)] }
  | declared {keyword : String} (h : keyword ∈ ["env", "secrets", "workdir"])
      (env : List EnvEntry) (secrets : List SecretEntry) (workdir : Option Workdir) :
      Effect st payload line keyword { st with plan := { st.plan with
        env := env, secrets := secrets, workdir := workdir } }
  | option {keyword : String} (h : keyword ∈ ["timeout", "name", "only_if"])
      (timeout : Option Nat) (name guard : Option String) :
      Effect st payload line keyword { st with
        pendingTimeout := timeout, pendingName := name, pendingGuard := guard }
  | enterLocal : Effect st payload line "local" st.localLines
  | enterRemote {target : String} (h : requireTarget payload "remote" line = .ok target) :
      Effect st payload line "remote" { st with
        mode := .remoteMode, target := target, targetLine := line }
  | hostStep {keyword : String} (h : keyword ∈ hostDirectives) (target : String) (step : Step)
      (hblock : ¬ step.IsBlock) : Effect st payload line keyword (st.emit target step)
  | assertion {keyword : String} (h : keyword ∈ assertDirectives) (target : String)
      (check : Assertion) : Effect st payload line keyword (st.pushAssertion target line check)
  | copied (c : CopyDirective) (h : parseCopy payload line = .ok c) :
      Effect st payload line "copy" (st.localLines.pushCopy c line)
  | exportNext (vars : List ExportVar) :
      Effect st payload line "export" { st with pendingExport := st.pendingExport ++ vars }
  | exportLast (vars : List ExportVar) (s : LocalStep)
      (h : st.plan.steps.getLast? = some (.localBlock s)) :
      Effect st payload line "export" (st.withSteps (st.plan.steps.dropLast ++
        [.localBlock { s with exports := s.exports ++ vars }]))

/-- A handler does what its keyword stands for. -/
def EffectAs (keyword : String) (handler : Handler) : Prop :=
  ∀ st payload line st', handler st payload line = .ok st' → Effect st payload line keyword st'

theorem effect_declareServer : EffectAs "server" declareServer := by
  intro st payload line st' h
  obtain ⟨server, hserver, h⟩ := bind_eq_ok.mp h
  cases h
  exact .server hserver

theorem effect_declareGroup : EffectAs "group" declareGroup := by
  intro st payload line st' h
  obtain ⟨group, hgroup, h⟩ := bind_eq_ok.mp h
  cases h
  exact .group hgroup

theorem effect_declareEnv : EffectAs "env" declareEnv := by
  intro st payload line st' h
  obtain ⟨entry, -, h⟩ := bind_eq_ok.mp h
  cases h
  exact .declared (by decide) _ _ _

theorem effect_declareSecrets : EffectAs "secrets" declareSecrets := by
  intro st payload line st' h
  obtain ⟨entry, -, h⟩ := bind_eq_ok.mp h
  cases h
  exact .declared (by decide) _ _ _

theorem effect_addWorkdir : EffectAs "workdir" addWorkdir := by
  intro st payload line st' h
  obtain ⟨workdir, -, h⟩ := bind_eq_ok.mp h
  obtain ⟨_, -, h⟩ := bind_eq_ok.mp h
  cases h
  exact .declared (by decide) _ _ _

theorem effect_setTimeout : EffectAs "timeout" setTimeout := by
  intro st payload line st' h
  obtain ⟨seconds, -, h⟩ := bind_eq_ok.mp h
  obtain ⟨_, -, h⟩ := bind_eq_ok.mp h
  cases h
  exact .option (by decide) _ _ _

theorem effect_setName : EffectAs "name" setName := by
  intro st payload line st' h
  obtain ⟨_, -, h⟩ := bind_eq_ok.mp h
  cases h
  exact .option (by decide) _ _ _

theorem effect_setGuard : EffectAs "only_if" setGuard := by
  intro st payload line st' h
  obtain ⟨_, -, h⟩ := bind_eq_ok.mp h
  cases h
  exact .option (by decide) _ _ _

theorem effect_enterLocal : EffectAs "local" enterLocal := by
  intro st payload line st' h
  cases h
  exact .enterLocal

theorem effect_enterRemote : EffectAs "remote" enterRemote := by
  intro st payload line st' h
  obtain ⟨target, htarget, h⟩ := bind_eq_ok.mp h
  cases h
  exact .enterRemote htarget

theorem effect_addStep {α : Type} {directive : String} {wrap : α → Step}
    {parse : StepMeta → String → Nat → Except ParseError (String × α)}
    (hkey : directive ∈ hostDirectives) (hblock : ∀ a, ¬ (wrap a).IsBlock) :
    EffectAs directive (addStep directive wrap parse) := by
  intro st payload line st' h
  obtain ⟨_, -, h⟩ := bind_eq_ok.mp h
  obtain ⟨⟨target, step⟩, -, h⟩ := bind_eq_ok.mp h
  cases h
  exact .hostStep hkey target (wrap step) (hblock step)

theorem effect_addAssertion {directive : String}
    {parse : String → Nat → Except ParseError (Option String × Assertion)}
    (hkey : directive ∈ assertDirectives) :
    EffectAs directive (addAssertion directive parse) := by
  intro st payload line st' h
  obtain ⟨_, -, h⟩ := bind_eq_ok.mp h
  obtain ⟨⟨explicit, check⟩, -, h⟩ := bind_eq_ok.mp h
  obtain ⟨target, -, h⟩ := bind_eq_ok.mp h
  cases h
  exact .assertion hkey target check

theorem effect_copyFiles : EffectAs "copy" copyFiles := by
  intro st payload line st' h
  obtain ⟨_, -, h⟩ := bind_eq_ok.mp h
  obtain ⟨c, hc, h⟩ := bind_eq_ok.mp h
  cases h
  exact .copied c hc

theorem effect_declareExport : EffectAs "export" declareExport := by
  intro st payload line st' h
  obtain ⟨vars, -, h⟩ := bind_eq_ok.mp h
  split at h
  · split at h
    · cases h
      exact .exportNext vars
    · cases h
  · split at h
    next s hlast =>
      cases h
      exact .exportLast vars s hlast
    next => cases h

theorem effect_handlers : ∀ e ∈ handlers, EffectAs e.1 e.2 := by
  simp only [handlers, List.forall_mem_cons]
  refine ⟨effect_declareServer, effect_declareGroup, effect_declareEnv, effect_declareSecrets,
    effect_enterLocal, effect_enterRemote, effect_copyFiles, ?wait, ?reload, ?assert, ?health,
    ?port, ?portFree, ?enabled, ?rendered, ?service, ?install, ?backup, ?credstore, ?noLeak,
    ?digest, ?assertCredstore, ?inventory, ?helper, ?release, ?build, ?toolchain, ?image,
    effect_addWorkdir, effect_declareExport, effect_setTimeout, effect_setName,
    effect_setGuard, ?rest⟩
  case rest => exact fun e he => absurd he List.not_mem_nil
  case assert | health | port | portFree | enabled | rendered | noLeak | digest |
      assertCredstore =>
    exact effect_addAssertion (by decide)
  all_goals exact effect_addStep (by decide) fun _ => not_false

/-- What an accepted directive does to the state in front of it. -/
theorem effect_applyDirective {st st' : State} {keyword payload : String} {line : Nat}
    (h : st.applyDirective keyword payload line = .ok st') :
    Effect (st.beforeDirective keyword) payload line keyword st' := by
  unfold applyDirective at h
  cases hhandler : handlers.lookup keyword with
  | none =>
    rw [hhandler] at h
    cases h
  | some handler =>
    rw [hhandler] at h
    obtain ⟨before, after, htable, -⟩ := List.lookup_eq_some_iff.mp hhandler
    have hmem : (keyword, handler) ∈ handlers :=
      htable ▸ List.mem_append_right before List.mem_cons_self
    exact effect_handlers (keyword, handler) hmem (st.beforeDirective keyword) payload line st' h

/-- What one accepted line does: it is text of a block, or a directive. -/
inductive LineEffect (st : State) (line : List Char) (lineNo : Nat) : State → Prop
  | body (h : (st.heredocs.consumeBody line).2 = true) :
      LineEffect st line lineNo { st with
        heredocs := (st.heredocs.consumeBody line).1, pending := st.pending ++ [line] }
  | text (h : (st.heredocs.consumeBody line).2 = false) (hdir : directive line = none) :
      LineEffect st line lineNo { st with
        heredocs := st.heredocs.openIn line lineNo, pending := st.pending ++ [line] }
  | directive {keyword payload : String} {st' : State}
      (h : (st.heredocs.consumeBody line).2 = false)
      (hdir : Shellflow.directive line = some (keyword, payload))
      (heffect : Effect (st.beforeDirective keyword) payload lineNo keyword st') :
      LineEffect st line lineNo st'

theorem effect_scanLine {st st' : State} {numbered : List Char × Nat}
    (h : st.scanLine numbered = .ok st') :
    LineEffect st (stripCr numbered.1) numbered.2 st' := by
  unfold scanLine at h
  cases hbody : (st.heredocs.consumeBody (stripCr numbered.1)).2 with
  | true =>
    simp only [hbody, if_true] at h
    cases h
    exact .body hbody
  | false =>
    simp only [hbody, Bool.false_eq_true, if_false] at h
    cases hdir : Shellflow.directive (stripCr numbered.1) with
    | none =>
      rw [hdir] at h
      cases h
      exact .text hbody hdir
    | some found =>
      obtain ⟨keyword, payload⟩ := found
      rw [hdir] at h
      exact .directive hbody hdir (effect_applyDirective h)

end State
end Shellflow
