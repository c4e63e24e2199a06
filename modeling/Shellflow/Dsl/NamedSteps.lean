import Shellflow.Lib.Fallible
import Shellflow.Dsl.Parser

/-! Labelled steps. Every `@copy` adds one entry and every assertion one check; those that come
without a label of their own may join the step before them, whatever its label. -/
namespace Shellflow
open Fallible State

/-- A labelled step holds the entry or the check of one directive. -/
def Step.Isolated : Step → Prop
  | .copy s => s.name.isSome → s.entries.length = 1
  | .assert s => s.name.isSome → s.checks.length = 1
  | _ => True

instance : DecidablePred Step.Isolated
  | .copy s => inferInstanceAs (Decidable (s.name.isSome → s.entries.length = 1))
  | .assert s => inferInstanceAs (Decidable (s.name.isSome → s.checks.length = 1))
  | .localBlock _ | .remote _ | .wait _ | .reload _ | .service _ | .install _ | .backup _
  | .credstore _ | .unitInventory _ | .helper _ | .release _ | .build _ | .toolchain _
  | .image _ => isTrue trivial

def ExecutionPlan.Isolated (plan : ExecutionPlan) : Prop := ∀ s ∈ plan.steps, s.Isolated

instance (plan : ExecutionPlan) : Decidable plan.Isolated :=
  inferInstanceAs (Decidable (∀ s ∈ plan.steps, s.Isolated))

namespace State

/-- The directives that add a check. -/
def assertionParsers : List (String × (String → Nat →
    Except ParseError (Option String × Assertion))) :=
  [("assert", parseAssert), ("assert_health", parseAssertHealth),
    ("assert_port", parseAssertPort), ("assert_port_free", parseAssertPortFree),
    ("assert_enabled", parseAssertEnabled), ("assert_rendered", parseAssertRendered),
    ("assert_no_leak", parseAssertNoLeak), ("assert_digest", parseAssertDigest),
    ("assert_credstore", parseAssertCredstore)]

/-- The step a directive would join: the last one, when their target and options agree and the
directive has no label of its own. -/
def joins (st : State) (keyword payload : String) (line : Nat) : Option Step :=
  if keyword = "copy" then
    (parseCopy payload line).toOption.bind fun c => (st.copyMergeable c).map .copy
  else
    (assertionParsers.lookup keyword).bind fun parse =>
      (parse payload line).toOption.bind fun parsed =>
        (resolveAssertTarget st.lastTarget parsed.1 keyword line).toOption.bind fun target =>
          (st.assertMergeable target).map .assert

/-- The line is no directive, or the step it joins has no label. -/
def JoinsUnlabelled (st : State) (numbered : List Char × Nat) : Prop :=
  (st.heredocs.consumeBody (stripCr numbered.1)).2 = false →
    ∀ keyword payload, directive (stripCr numbered.1) = some (keyword, payload) →
      ∀ step, (st.beforeDirective keyword).joins keyword payload numbered.2 = some step →
        step.name = none

/-- What a directive can do to the steps; the index is the step it joins. -/
inductive Changes (old new : List Step) : Option Step → Prop
  | keep (h : new = old) : Changes old new none
  | append (s : Step) (h : new = old ++ [s]) (hs : s.Isolated) : Changes old new none
  | exported (s s' : LocalStep) (hlast : old.getLast? = some (.localBlock s))
      (h : new = old.dropLast ++ [.localBlock s']) : Changes old new none
  | join (s s' : Step) (hlast : old.getLast? = some s) (h : new = old.dropLast ++ [s'])
      (hs : s.name = none → s.Isolated) (hs' : s'.Isolated ↔ s.name = none) :
      Changes old new (some s)

theorem Changes.isolated_iff {old new : List Step} {joined : Option Step}
    (h : Changes old new joined) :
    (∀ s ∈ new, s.Isolated) ↔
      (∀ s ∈ old, s.Isolated) ∧ ∀ step, joined = some step → step.name = none := by
  have hsplit : ∀ s, old.getLast? = some s → old = old.dropLast ++ [s] := fun s hs =>
    (List.dropLast_append_getLast? s hs).symm
  have hnone : ∀ step, (none : Option Step) = some step → step.name = none :=
    fun step hstep => by cases hstep
  cases h with
  | keep h =>
    subst h
    exact ⟨fun hnew => ⟨hnew, hnone⟩, And.left⟩
  | append s h hs =>
    subst h
    rw [List.forall_mem_append]
    exact ⟨fun hnew => ⟨hnew.1, hnone⟩, fun hold => ⟨hold.1, by simpa using hs⟩⟩
  | exported s s' hlast h =>
    subst h
    rw [hsplit _ hlast, List.dropLast_concat, List.forall_mem_append, List.forall_mem_append]
    simp [Step.Isolated]
  | join s s' hlast h hs hs' =>
    subst h
    rw [hsplit _ hlast, List.dropLast_concat, List.forall_mem_append, List.forall_mem_append]
    simp only [List.mem_singleton, forall_eq, Option.some.injEq, forall_eq', hs']
    tauto

def Keeps (handler : Handler) : Prop :=
  ∀ st payload line st', handler st payload line = .ok st' → st'.plan.steps = st.plan.steps

theorem declareServer_keeps : Keeps declareServer := by
  intro st payload line st' h
  obtain ⟨server, -, h⟩ := bind_eq_ok.mp h
  cases h
  rfl

theorem declareGroup_keeps : Keeps declareGroup := by
  intro st payload line st' h
  obtain ⟨group, -, h⟩ := bind_eq_ok.mp h
  cases h
  rfl

theorem declareEnv_keeps : Keeps declareEnv := by
  intro st payload line st' h
  obtain ⟨entry, -, h⟩ := bind_eq_ok.mp h
  cases h
  rfl

theorem declareSecrets_keeps : Keeps declareSecrets := by
  intro st payload line st' h
  obtain ⟨entry, -, h⟩ := bind_eq_ok.mp h
  cases h
  rfl

theorem enterLocal_keeps : Keeps enterLocal := by
  intro st payload line st' h
  cases h
  rfl

theorem enterRemote_keeps : Keeps enterRemote := by
  intro st payload line st' h
  obtain ⟨target, -, h⟩ := bind_eq_ok.mp h
  cases h
  rfl

theorem addWorkdir_keeps : Keeps addWorkdir := by
  intro st payload line st' h
  obtain ⟨workdir, -, h⟩ := bind_eq_ok.mp h
  obtain ⟨_, -, h⟩ := bind_eq_ok.mp h
  cases h
  rfl

theorem setTimeout_keeps : Keeps setTimeout := by
  intro st payload line st' h
  obtain ⟨seconds, -, h⟩ := bind_eq_ok.mp h
  obtain ⟨_, -, h⟩ := bind_eq_ok.mp h
  cases h
  rfl

theorem setName_keeps : Keeps setName := by
  intro st payload line st' h
  obtain ⟨_, -, h⟩ := bind_eq_ok.mp h
  cases h
  rfl

theorem setGuard_keeps : Keeps setGuard := by
  intro st payload line st' h
  obtain ⟨_, -, h⟩ := bind_eq_ok.mp h
  cases h
  rfl

/-- What the directive with this keyword does to the steps. -/
def ChangesAs (keyword : String) (handler : Handler) : Prop :=
  ∀ st payload line st', handler st payload line = .ok st' →
    Changes st.plan.steps st'.plan.steps (st.joins keyword payload line)

theorem joins_eq_none {keyword : String} (hcopy : keyword ≠ "copy")
    (hnone : assertionParsers.lookup keyword = none) (st : State) (payload : String)
    (line : Nat) : st.joins keyword payload line = none := by
  rw [joins, if_neg hcopy, hnone, Option.bind_none]

theorem changesAs_of_keeps {keyword : String} {handler : Handler} (hcopy : keyword ≠ "copy")
    (hnone : assertionParsers.lookup keyword = none) (h : Keeps handler) :
    ChangesAs keyword handler := by
  intro st payload line st' hok
  rw [joins_eq_none hcopy hnone]
  exact .keep (h st payload line st' hok)

theorem changesAs_addStep {α : Type} {directive : String} {wrap : α → Step}
    {parse : StepMeta → String → Nat → Except ParseError (String × α)}
    (hcopy : directive ≠ "copy") (hnone : assertionParsers.lookup directive = none)
    (hwrap : ∀ a, (wrap a).Isolated) : ChangesAs directive (addStep directive wrap parse) := by
  intro st payload line st' hok
  obtain ⟨_, -, hok⟩ := bind_eq_ok.mp hok
  obtain ⟨⟨target, step⟩, -, hok⟩ := bind_eq_ok.mp hok
  cases hok
  rw [joins_eq_none hcopy hnone]
  exact .append (wrap step) rfl (hwrap step)

theorem changes_pushAssertion (st : State) (target : String) (line : Nat) (check : Assertion) :
    Changes st.plan.steps (st.pushAssertion target line check).plan.steps
      ((st.assertMergeable target).map .assert) := by
  unfold pushAssertion
  cases hmerge : st.assertMergeable target with
  | none => exact .append _ rfl fun _ => rfl
  | some existing =>
    have hlast : st.plan.steps.getLast? = some (.assert existing) := by
      unfold assertMergeable at hmerge
      split at hmerge
      next hlast =>
        split at hmerge
        · rw [hlast, Option.some.inj hmerge]
        · cases hmerge
      next => cases hmerge
    refine .join (.assert existing) _ hlast rfl (fun hname => ?_) ?_
    · intro hsome
      rw [show existing.name = none from hname] at hsome
      cases hsome
    · have hpos : 0 < existing.checks.length := List.length_pos_iff.mpr existing.checks_ne
      simp only [Step.Isolated, Step.name, List.length_append, List.length_singleton]
      cases existing.name with
      | none => simp
      | some label =>
        simp only [Option.isSome_some, forall_const, reduceCtorEq, iff_false]
        omega

theorem changesAs_addAssertion {directive : String}
    {parse : String → Nat → Except ParseError (Option String × Assertion)}
    (hcopy : directive ≠ "copy") (hparse : assertionParsers.lookup directive = some parse) :
    ChangesAs directive (addAssertion directive parse) := by
  intro st payload line st' hok
  obtain ⟨_, -, hok⟩ := bind_eq_ok.mp hok
  obtain ⟨⟨explicit, check⟩, hparsed, hok⟩ := bind_eq_ok.mp hok
  obtain ⟨target, htarget, hok⟩ := bind_eq_ok.mp hok
  cases hok
  have hjoins : st.joins directive payload line = (st.assertMergeable target).map .assert := by
    rw [joins, if_neg hcopy, hparse, Option.bind_some, hparsed]
    simp only [Except.toOption, Option.bind_some, htarget]
  rw [hjoins]
  exact changes_pushAssertion st target line check

theorem changes_pushCopy (st : State) (c : CopyDirective) (line : Nat) :
    Changes st.plan.steps (st.pushCopy c line).plan.steps ((st.copyMergeable c).map .copy) := by
  unfold pushCopy
  cases hmerge : st.copyMergeable c with
  | none => exact .append _ rfl fun _ => rfl
  | some existing =>
    have hlast : st.plan.steps.getLast? = some (.copy existing) := by
      unfold copyMergeable at hmerge
      split at hmerge
      next hlast =>
        split at hmerge
        · rw [hlast, Option.some.inj hmerge]
        · cases hmerge
      next => cases hmerge
    refine .join (.copy existing) _ hlast rfl (fun hname => ?_) ?_
    · intro hsome
      rw [show existing.name = none from hname] at hsome
      cases hsome
    · have hpos : 0 < existing.entries.length := List.length_pos_iff.mpr existing.entries_ne
      simp only [Step.Isolated, Step.name, List.length_append, List.length_singleton]
      cases existing.name with
      | none => simp
      | some label =>
        simp only [Option.isSome_some, forall_const, reduceCtorEq, iff_false]
        omega

theorem changesAs_copyFiles : ChangesAs "copy" copyFiles := by
  intro st payload line st' hok
  obtain ⟨_, -, hok⟩ := bind_eq_ok.mp hok
  obtain ⟨c, hparsed, hok⟩ := bind_eq_ok.mp hok
  cases hok
  have hjoins : st.joins "copy" payload line = (st.copyMergeable c).map .copy := by
    rw [joins, if_pos rfl, hparsed]
    rfl
  rw [hjoins]
  exact changes_pushCopy st.localLines c line

theorem changesAs_declareExport : ChangesAs "export" declareExport := by
  intro st payload line st' hok
  obtain ⟨vars, -, hok⟩ := bind_eq_ok.mp hok
  rw [joins_eq_none (by decide) rfl]
  split at hok
  · split at hok
    · cases hok
      exact .keep rfl
    · cases hok
  · split at hok
    next s hlast =>
      cases hok
      exact .exported s _ hlast rfl
    next => cases hok

theorem changesAs_handlers : ∀ e ∈ handlers, ChangesAs e.1 e.2 := by
  have hkeeps : ∀ {keyword : String} {handler : Handler}, keyword ≠ "copy" →
      assertionParsers.lookup keyword = none → Keeps handler → ChangesAs keyword handler :=
    changesAs_of_keeps
  simp only [handlers, List.forall_mem_cons]
  refine ⟨?server, ?group, ?env, ?secrets, ?localLines, ?remote, changesAs_copyFiles, ?wait,
    ?reload, ?assert, ?health, ?port, ?portFree, ?enabled, ?rendered, ?service, ?install, ?backup,
    ?credstore, ?noLeak, ?digest, ?assertCredstore, ?inventory, ?helper, ?release, ?build,
    ?toolchain, ?image, ?workdir, changesAs_declareExport, ?timeout, ?name, ?guard, ?rest⟩
  case server => exact hkeeps (by decide) rfl declareServer_keeps
  case group => exact hkeeps (by decide) rfl declareGroup_keeps
  case env => exact hkeeps (by decide) rfl declareEnv_keeps
  case secrets => exact hkeeps (by decide) rfl declareSecrets_keeps
  case localLines => exact hkeeps (by decide) rfl enterLocal_keeps
  case remote => exact hkeeps (by decide) rfl enterRemote_keeps
  case workdir => exact hkeeps (by decide) rfl addWorkdir_keeps
  case timeout => exact hkeeps (by decide) rfl setTimeout_keeps
  case name => exact hkeeps (by decide) rfl setName_keeps
  case guard => exact hkeeps (by decide) rfl setGuard_keeps
  case rest => exact fun e he => absurd he List.not_mem_nil
  case assert | health | port | portFree | enabled | rendered | noLeak | digest |
      assertCredstore =>
    exact changesAs_addAssertion (by decide) rfl
  all_goals exact changesAs_addStep (by decide) rfl fun _ => trivial

theorem flush_steps (st : State) :
    st.flush.plan.steps = st.plan.steps ∨
      ∃ s, s.Isolated ∧ st.flush.plan.steps = st.plan.steps ++ [s] := by
  unfold flush
  by_cases hexec : st.hasExecutable = true
  · rw [if_pos hexec]
    refine Or.inr ⟨st.blockStep, ?_, rfl⟩
    unfold blockStep
    cases st.mode with
    | localMode => trivial
    | remoteMode => trivial
  · rw [if_neg hexec]
    exact Or.inl rfl

theorem isolated_flush (st : State) : st.flush.plan.Isolated ↔ st.plan.Isolated := by
  unfold ExecutionPlan.Isolated
  rcases flush_steps st with h | ⟨s, hs, h⟩
  · rw [h]
  · rw [h, List.forall_mem_append]
    exact ⟨And.left, fun hold => ⟨hold, by simpa using hs⟩⟩

theorem isolated_beforeDirective (st : State) (keyword : String) :
    (st.beforeDirective keyword).plan.Isolated ↔ st.plan.Isolated := by
  unfold beforeDirective
  by_cases hexport : keyword = "export"
  · rw [if_pos hexport]
  · rw [if_neg hexport]
    exact isolated_flush st

theorem isolated_applyDirective {st st' : State} {keyword payload : String} {line : Nat}
    (h : st.applyDirective keyword payload line = .ok st') :
    st'.plan.Isolated ↔ st.plan.Isolated ∧
      ∀ step, (st.beforeDirective keyword).joins keyword payload line = some step →
        step.name = none := by
  unfold applyDirective at h
  cases hhandler : handlers.lookup keyword with
  | none =>
    rw [hhandler] at h
    cases h
  | some handler =>
    rw [hhandler] at h
    obtain ⟨before, after, htable, -⟩ := List.lookup_eq_some_iff.mp hhandler
    have hmem : (keyword, handler) ∈ handlers :=
      htable ▸ List.mem_append_right before List.mem_cons_self
    have hchanges := changesAs_handlers (keyword, handler) hmem
      (st.beforeDirective keyword) payload line st' h
    rw [← isolated_beforeDirective st keyword]
    exact hchanges.isolated_iff

theorem isolated_scanLine (st : State) (numbered : List Char × Nat) (st' : State)
    (h : st.scanLine numbered = .ok st') :
    st'.plan.Isolated ↔ st.plan.Isolated ∧ st.JoinsUnlabelled numbered := by
  unfold scanLine at h
  unfold JoinsUnlabelled
  cases hbody : (st.heredocs.consumeBody (stripCr numbered.1)).2 with
  | true =>
    simp only [hbody, if_true] at h
    cases h
    simp
  | false =>
    simp only [hbody, Bool.false_eq_true, if_false] at h
    cases hdir : directive (stripCr numbered.1) with
    | none =>
      rw [hdir] at h
      cases h
      simp
    | some found =>
      obtain ⟨keyword, payload⟩ := found
      rw [hdir] at h
      rw [isolated_applyDirective h]
      simp

end State

theorem steps_of_finish {st : State} {plan : ExecutionPlan} (h : st.finish = .ok plan) :
    plan.Isolated ↔ st.plan.Isolated := by
  unfold State.finish at h
  split at h
  · cases h
  · split at h
    · cases h
    · cases h
      exact isolated_flush st

/-- The labelled steps of a plan hold one directive each exactly when no line joined one. -/
theorem parseScript_isolated_iff (input : String) (plan : ExecutionPlan)
    (h : parseScript input = .ok plan) :
    plan.Isolated ↔ Along scanLine JoinsUnlabelled .new (numberedLines input) := by
  obtain ⟨st, hrun, hfinish⟩ := bind_eq_ok.mp h
  have hnew : State.new.plan.Isolated := fun s hs => absurd hs List.not_mem_nil
  rw [steps_of_finish hfinish, foldlM_iff_along isolated_scanLine hrun]
  exact and_iff_right hnew

/-- Each assertion with a label of its own. -/
def separateScript : String :=
  "# @server a h\n# @name n\n# @assert foo @a\n# @name m\n# @assert bar @a\n"

theorem parseScript_isolated_iff_separate : ∃ plan, parseScript separateScript = .ok plan ∧
    plan.Isolated ∧ Along scanLine JoinsUnlabelled .new (numberedLines separateScript) := by
  have hok : ((parseScript separateScript).toOption.any fun plan => plan.Isolated) = true := by
    decide +kernel
  cases h : parseScript separateScript with
  | error e =>
    rw [h] at hok
    cases hok
  | ok plan =>
    have hplan : plan.Isolated := by simpa [h, Except.toOption] using hok
    exact ⟨plan, rfl, hplan, (parseScript_isolated_iff separateScript plan h).mp hplan⟩

/-- The assertion of the last line joins the step labelled before. -/
def mergedScript : String := "# @server a h\n# @name n\n# @assert foo @a\n# @assert bar @a\n"

theorem parseScript_joins_a_labelled_step :
    ¬ ∀ input plan, parseScript input = .ok plan → plan.Isolated := by
  intro hall
  have hbad : ((parseScript mergedScript).toOption.any fun plan => !decide plan.Isolated) =
      true := by
    decide +kernel
  cases h : parseScript mergedScript with
  | error e =>
    rw [h] at hbad
    cases hbad
  | ok plan =>
    have hplan : ¬ plan.Isolated := by simpa [h, Except.toOption] using hbad
    exact hplan (hall mergedScript plan h)

end Shellflow
