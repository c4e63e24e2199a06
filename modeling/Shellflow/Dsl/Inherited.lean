import Shellflow.Dsl.NamedSteps
import Shellflow.Dsl.Guards

/-! Where an assertion runs: at its own target, or at the one of the latest step that has one. -/
namespace Shellflow
open Fallible State

/-- A local block has no target. -/
def Step.targetText? : Step → Option String
  | .localBlock _ => none
  | .remote s => some s.target.text
  | .copy s => some s.target.text
  | .wait s => some s.target.text
  | .reload s => some s.target.text
  | .assert s => some s.target.text
  | .service s => some s.target.text
  | .install s => some s.target.text
  | .backup s => some s.target.text
  | .credstore s => some s.target.text
  | .unitInventory s => some s.target.text
  | .helper s => some s.target.text
  | .release s => some s.target.text
  | .build s => some s.target.text
  | .toolchain s => some s.target.text
  | .image s => some s.target.text

theorem text_mkAt (text : String) (line : Nat) : (Target.mkAt text line).text = targetText text := rfl

/-- The target of the latest step that carries one. -/
def latestTarget (steps : List Step) : Option String := (steps.filterMap Step.targetText?).getLast?

/-- The checks of a step, each with the target it runs at. -/
def Step.targetedChecks : Step → List (String × Assertion)
  | .assert s => s.checks.map fun check => (s.target.text, check)
  | _ => []

def checksOf (steps : List Step) : List (String × Assertion) := steps.flatMap Step.targetedChecks

namespace State

/-- The target that the next assertion inherits is the one of the latest step. -/
def Inherits (st : State) : Prop := st.lastTarget.map targetText = latestTarget st.plan.steps

/-- A line of the script adds steps behind the ones that are there, and these checks. -/
structure Grows (st st' : State) (added : List (String × Assertion)) : Prop where
  targets : st.plan.steps.map Step.targetText? <+: st'.plan.steps.map Step.targetText?
  checks : checksOf st'.plan.steps = checksOf st.plan.steps ++ added
  inherits : st.Inherits → st'.Inherits

/-- The target of the step stays as it is when it is taken for a target again. -/
def Settled (step : Step) : Prop := ∀ text ∈ step.targetText?, targetText text = text

/-- The step that the line joins. -/
def lineJoins (st : State) (numbered : List Char × Nat) : Option Step :=
  match readLine st.heredocs numbered with
  | .directive keyword payload n => (st.beforeDirective keyword).joins keyword payload n
  | .text _ => none

/-- The line joins no step, or one with a settled target. -/
def JoinsSettled (st : State) (numbered : List Char × Nat) : Prop :=
  ∀ step ∈ st.lineJoins numbered, Settled step

instance : DecidablePred Settled := fun step =>
  inferInstanceAs (Decidable (∀ text ∈ step.targetText?, targetText text = text))

instance (st : State) (numbered : List Char × Nat) : Decidable (st.JoinsSettled numbered) :=
  inferInstanceAs (Decidable (∀ step ∈ st.lineJoins numbered, Settled step))

theorem lineJoins_of_directive {st : State} {numbered : List Char × Nat} {keyword payload : String}
    {n : Nat} (h : readLine st.heredocs numbered = .directive keyword payload n) :
    st.lineJoins numbered = (st.beforeDirective keyword).joins keyword payload n := by
  rw [lineJoins, h]

section Steps
variable {st st' : State} {steps : List Step} {old new step : Step} {target : String}

theorem checksOf_append (steps later : List Step) :
    checksOf (steps ++ later) = checksOf steps ++ checksOf later := List.flatMap_append

theorem checksOf_singleton (step : Step) : checksOf [step] = step.targetedChecks :=
  List.flatMap_singleton ..

theorem latestTarget_concat (steps : List Step) (step : Step) :
    latestTarget (steps ++ [step]) = step.targetText?.or (latestTarget steps) := by
  rw [latestTarget, List.filterMap_append]
  cases h : step.targetText? with
  | none => simp [h, latestTarget]
  | some text => simp [h]

/-- The targets say which step is the latest with one. -/
theorem latestTarget_congr {steps' : List Step}
    (h : steps'.map Step.targetText? = steps.map Step.targetText?) :
    latestTarget steps' = latestTarget steps := by
  have hid : ∀ steps : List Step,
      steps.filterMap Step.targetText? = (steps.map Step.targetText?).filterMap id := by
    intro steps
    rw [List.filterMap_map]
    rfl
  rw [latestTarget, latestTarget, hid, hid, h]

theorem grows_trans {mid : State} {added later : List (String × Assertion)} (h : Grows st mid added)
    (h' : Grows mid st' later) : Grows st st' (added ++ later) where
  targets := h.targets.trans h'.targets
  checks := by rw [h'.checks, h.checks, List.append_assoc]
  inherits hst := h'.inherits (h.inherits hst)

theorem grows_of_eq (hsteps : st'.plan.steps = st.plan.steps) (hlast : st'.lastTarget = st.lastTarget) :
    Grows st st' [] where
  targets := by rw [hsteps]
  checks := by rw [hsteps, List.append_nil]
  inherits hst := by rwa [Inherits, hsteps, hlast]

/-- A new step at the end, whose target is the latest from now on. -/
theorem grows_of_append (hsteps : st'.plan.steps = st.plan.steps ++ [step])
    (hlast : st'.lastTarget.map targetText = step.targetText?.or (st.lastTarget.map targetText)) :
    Grows st st' step.targetedChecks where
  targets := by
    rw [hsteps, List.map_append]
    exact List.prefix_append _ _
  checks := by rw [hsteps, checksOf_append, checksOf_singleton]
  inherits hst := by rw [Inherits, hsteps, hlast, latestTarget_concat, hst]

/-- The last step with more in it. -/
theorem grows_of_replace {added : List (String × Assertion)} (hold : st.plan.steps.getLast? = some old)
    (hsteps : st'.plan.steps = st.plan.steps.dropLast ++ [new])
    (htarget : new.targetText? = old.targetText?)
    (hchecks : new.targetedChecks = old.targetedChecks ++ added)
    (hlast : st.Inherits → st'.lastTarget.map targetText = st.lastTarget.map targetText) :
    Grows st st' added := by
  have hsplit : st.plan.steps = st.plan.steps.dropLast ++ [old] :=
    (List.dropLast_append_getLast? old hold).symm
  have hmap : st'.plan.steps.map Step.targetText? = st.plan.steps.map Step.targetText? := by
    rw [hsteps, List.map_append, List.map_singleton, htarget]
    conv_rhs => rw [hsplit, List.map_append, List.map_singleton]
  refine ⟨by rw [hmap], ?_, fun hst => ?_⟩
  · conv_rhs => rw [hsplit, checksOf_append, checksOf_singleton, List.append_assoc, ← hchecks]
    rw [hsteps, checksOf_append, checksOf_singleton]
  · rw [Inherits, latestTarget_congr hmap, hlast hst, hst]

theorem grows_flush (st : State) : Grows st st.flush [] := by
  by_cases hexec : st.hasExecutable = true
  · have hsteps : st.flush.plan.steps = st.plan.steps ++ [st.blockStep] := by
      rw [flush, if_pos hexec]
      rfl
    have hnone : st.blockStep.targetedChecks = [] := by
      rw [blockStep]
      cases st.mode <;> rfl
    rw [← hnone]
    refine grows_of_append hsteps ?_
    rw [flush, if_pos hexec, blockStep]
    cases hmode : st.mode with
    | localMode => rfl
    | remoteMode => rfl
  · refine grows_of_eq ?_ ?_ <;> rw [flush, if_neg hexec]

theorem grows_emit (st : State) (htarget : step.targetText? = some (targetText target)) :
    Grows st (st.emit target step) step.targetedChecks :=
  grows_of_append rfl (by rw [htarget]; rfl)

theorem text_of_assertMergeable {existing : AssertStep}
    (h : st.assertMergeable target = some existing) : existing.target.text = target := by
  rw [assertMergeable, assertMergeable_last h] at h
  dsimp only at h
  split at h
  next hsame =>
    simp only [Bool.and_eq_true, beq_iff_eq] at hsame
    exact hsame.1.2
  next => cases h

theorem text_of_copyMergeable {c : CopyDirective} {existing : CopyStep}
    (h : st.copyMergeable c = some existing) : existing.target.text = c.target := by
  rw [copyMergeable, copyMergeable_last h] at h
  dsimp only at h
  split at h
  next hsame =>
    simp only [Bool.and_eq_true, beq_iff_eq] at hsame
    exact hsame.1.1.1.1.2
  next => cases h

/-- A check runs where it would run in a step of its own. -/
theorem grows_pushAssertion (st : State) (target : String) (line : Nat) (check : Assertion)
    (hjoins : ∀ existing, st.assertMergeable target = some existing → Settled (.assert existing)) :
    Grows st (st.pushAssertion target line check) [(targetText target, check)] := by
  unfold pushAssertion
  cases hmerge : st.assertMergeable target with
  | none => exact grows_emit st rfl
  | some existing =>
    have htext := text_of_assertMergeable hmerge
    have hsettled : targetText target = target := by
      rw [← htext]
      exact hjoins existing hmerge _ rfl
    refine grows_of_replace (assertMergeable_last hmerge) rfl rfl ?_ fun _ => rfl
    simp [Step.targetedChecks, htext, hsettled]

theorem grows_pushCopy (st : State) (c : CopyDirective) (line : Nat)
    (hjoins : ∀ existing, st.copyMergeable c = some existing → Settled (.copy existing)) :
    Grows st (st.pushCopy c line) [] := by
  unfold pushCopy
  cases hmerge : st.copyMergeable c with
  | none => exact grows_emit st rfl
  | some existing =>
    have hlast := copyMergeable_last hmerge
    have htext := text_of_copyMergeable hmerge
    have hsettled : targetText c.target = existing.target.text := by
      rw [← htext]
      exact hjoins existing hmerge _ rfl
    refine grows_of_replace hlast rfl rfl (List.append_nil _).symm fun hst => ?_
    have hsplit : st.plan.steps = st.plan.steps.dropLast ++ [.copy existing] :=
      (List.dropLast_append_getLast? _ hlast).symm
    rw [hst, hsplit, latestTarget_concat]
    exact congrArg some hsettled

end Steps

section Parsers
variable {m : StepMeta} {payload : String} {line : Nat}

/-- The step that a directive asks for runs at the target that it names. -/
def AimedAs {α : Type} (wrap : α → Step) (found : String × α) : Prop :=
  (wrap found.2).targetText? = some (targetText found.1)

theorem aimed_parseWait : Yields (AimedAs .wait) (parseWait m payload line) := by
  simp [parseWait, AimedAs, Step.targetText?, text_mkAt]

theorem aimed_parseReload : Yields (AimedAs .reload) (parseReload m payload line) := by
  simp [parseReload, AimedAs, Step.targetText?, text_mkAt]

theorem aimed_parseService : Yields (AimedAs .service) (parseService m payload line) := by
  simp [parseService, AimedAs, Step.targetText?, text_mkAt]

theorem aimed_parseInstall : Yields (AimedAs .install) (parseInstall m payload line) := by
  simp [parseInstall, AimedAs, Step.targetText?, text_mkAt]

theorem aimed_parseBackup : Yields (AimedAs .backup) (parseBackup m payload line) := by
  simp [parseBackup, AimedAs, Step.targetText?, text_mkAt]

theorem aimed_parseCredstore : Yields (AimedAs .credstore) (parseCredstore m payload line) := by
  simp [parseCredstore, AimedAs, Step.targetText?, text_mkAt]

theorem aimed_parseUnitInventory : Yields (AimedAs .unitInventory) (parseUnitInventory m payload line) := by
  simp [parseUnitInventory, AimedAs, Step.targetText?, text_mkAt]

theorem aimed_parseHelper : Yields (AimedAs .helper) (parseHelper m payload line) := by
  simp [parseHelper, AimedAs, Step.targetText?, text_mkAt]

theorem aimed_parseRelease : Yields (AimedAs .release) (parseRelease m payload line) := by
  simp [parseRelease, AimedAs, Step.targetText?, text_mkAt]

theorem aimed_parseBuild : Yields (AimedAs .build) (parseBuild m payload line) := by
  simp [parseBuild, AimedAs, Step.targetText?, text_mkAt]

theorem aimed_parseToolchain : Yields (AimedAs .toolchain) (parseToolchain m payload line) := by
  simp [parseToolchain, AimedAs, Step.targetText?, text_mkAt]

theorem aimed_parseImage : Yields (AimedAs .image) (parseImage m payload line) := by
  simp [parseImage, AimedAs, Step.targetText?, text_mkAt]

end Parsers

section Handlers

/-- What the directive with this keyword does to the steps. -/
def GrowsAs (keyword : String) (handler : Handler) : Prop :=
  ∀ st payload line st', handler st payload line = .ok st' →
    (∀ step, st.joins keyword payload line = some step → Settled step) →
    ∃ added, Grows st st' added

theorem growsAs_addStep {α : Type} {directive : String} {wrap : α → Step}
    {parse : StepMeta → String → Nat → Except ParseError (String × α)}
    (hparse : ∀ m payload line, Yields (AimedAs wrap) (parse m payload line)) :
    GrowsAs directive (addStep directive wrap parse) := by
  intro st payload line st' h _
  obtain ⟨_, -, h⟩ := bind_eq_ok.mp h
  obtain ⟨⟨target, step⟩, hstep, h⟩ := bind_eq_ok.mp h
  cases h
  exact ⟨_, grows_emit st (hparse _ _ _ _ hstep)⟩

/-- The target of an assertion in a step of its own, behind these steps. -/
def ownTarget (earlier : List Step) : Option String → Option String
  | some raw => some (targetText (targetText raw))
  | none => latestTarget earlier

theorem ownTarget_of_resolve {st : State} {explicit : Option String} {directive target : String}
    {line : Nat} (hst : st.Inherits)
    (h : resolveAssertTarget st.lastTarget explicit directive line = .ok target) :
    ownTarget st.plan.steps explicit = some (targetText target) := by
  cases explicit with
  | some raw =>
    rw [resolveAssertTarget, invalidDirective] at h
    by_cases hempty : targetText raw = ""
    · rw [if_pos hempty] at h
      cases h
    · rw [if_neg hempty] at h
      rw [ownTarget, Except.ok.inj h]
  | none =>
    rw [ownTarget, ← hst]
    cases hlast : st.lastTarget with
    | none =>
      rw [hlast, resolveAssertTarget, ofOption, invalidDirective] at h
      cases h
    | some last =>
      rw [hlast, resolveAssertTarget, ofOption] at h
      rw [Option.map_some, Except.ok.inj h]

/-- An assertion adds its check at its own target. -/
theorem grows_addAssertion {directive payload : String} {line : Nat} {st st' : State}
    {parse : String → Nat → Except ParseError (Option String × Assertion)}
    {explicit : Option String} {check : Assertion} (hcopy : directive ≠ "copy")
    (hlookup : assertionParsers.lookup directive = some parse)
    (hparse : parse payload line = .ok (explicit, check))
    (h : addAssertion directive parse st payload line = .ok st')
    (hjoins : ∀ step, st.joins directive payload line = some step → Settled step) :
    ∃ target, Grows st st' [(target, check)] ∧
      (st.Inherits → ownTarget st.plan.steps explicit = some target) := by
  obtain ⟨_, -, h⟩ := bind_eq_ok.mp h
  obtain ⟨found, hfound, h⟩ := bind_eq_ok.mp h
  rw [hparse] at hfound
  cases hfound
  obtain ⟨target, htarget, h⟩ := bind_eq_ok.mp h
  cases h
  have heq : st.joins directive payload line = (st.assertMergeable target).map .assert := by
    rw [joins, if_neg hcopy, hlookup, Option.bind_some, hparse]
    simp only [Except.toOption, Option.bind_some, htarget]
  refine ⟨targetText target, grows_pushAssertion st target line check fun existing hmerge => ?_,
    fun hst => ownTarget_of_resolve hst htarget⟩
  exact hjoins _ (by rw [heq, hmerge]; rfl)

theorem growsAs_addAssertion {directive : String}
    {parse : String → Nat → Except ParseError (Option String × Assertion)}
    (hcopy : directive ≠ "copy") (hlookup : assertionParsers.lookup directive = some parse) :
    GrowsAs directive (addAssertion directive parse) := by
  intro st payload line st' h hjoins
  obtain ⟨_, -, hbind⟩ := bind_eq_ok.mp h
  obtain ⟨⟨explicit, check⟩, hparse, -⟩ := bind_eq_ok.mp hbind
  obtain ⟨target, hgrows, -⟩ := grows_addAssertion hcopy hlookup hparse h hjoins
  exact ⟨_, hgrows⟩

theorem growsAs_copyFiles : GrowsAs "copy" copyFiles := by
  intro st payload line st' h hjoins
  obtain ⟨_, -, h⟩ := bind_eq_ok.mp h
  obtain ⟨c, hc, h⟩ := bind_eq_ok.mp h
  cases h
  have hlocal : Grows st st.localLines [] := grows_of_eq rfl rfl
  refine ⟨_, grows_trans hlocal (grows_pushCopy st.localLines c line fun existing hmerge => ?_)⟩
  refine hjoins (.copy existing) ?_
  rw [joins, if_pos rfl, hc]
  exact congrArg (Option.map Step.copy) hmerge

/-- A directive that is none of these leaves the steps and the targets as they are. -/
theorem growsAs_of_effect {keyword : String} {handler : Handler} (heffect : EffectAs keyword handler)
    (hstep : keyword ∉ stepDirectives) : GrowsAs keyword handler := by
  intro st payload line st' h _
  refine ⟨[], ?_⟩
  cases heffect st payload line st' h with
  | hostStep hmem => exact absurd (by simp [stepDirectives, hmem]) hstep
  | assertion hmem => exact absurd (by simp [stepDirectives, hmem]) hstep
  | copied => exact absurd (by decide) hstep
  | exportLast vars s hlast =>
    exact grows_of_replace hlast rfl rfl (List.append_nil _).symm fun _ => rfl
  | server | group | declared | option | enterLocal | enterRemote | exportNext =>
    exact grows_of_eq rfl rfl

theorem growsAs_handlers : ∀ e ∈ handlers, GrowsAs e.1 e.2 := by
  simp only [handlers, List.forall_mem_cons]
  refine ⟨growsAs_of_effect effect_declareServer ?_, growsAs_of_effect effect_declareGroup ?_,
    growsAs_of_effect effect_declareEnv ?_, growsAs_of_effect effect_declareSecrets ?_,
    growsAs_of_effect effect_enterLocal ?_, growsAs_of_effect effect_enterRemote ?_,
    growsAs_copyFiles, growsAs_addStep fun _ _ _ => aimed_parseWait,
    growsAs_addStep fun _ _ _ => aimed_parseReload, ?assert, ?health, ?port, ?portFree, ?enabled,
    ?rendered, growsAs_addStep fun _ _ _ => aimed_parseService,
    growsAs_addStep fun _ _ _ => aimed_parseInstall,
    growsAs_addStep fun _ _ _ => aimed_parseBackup,
    growsAs_addStep fun _ _ _ => aimed_parseCredstore, ?noLeak, ?digest, ?assertCredstore,
    growsAs_addStep fun _ _ _ => aimed_parseUnitInventory,
    growsAs_addStep fun _ _ _ => aimed_parseHelper,
    growsAs_addStep fun _ _ _ => aimed_parseRelease,
    growsAs_addStep fun _ _ _ => aimed_parseBuild,
    growsAs_addStep fun _ _ _ => aimed_parseToolchain,
    growsAs_addStep fun _ _ _ => aimed_parseImage, growsAs_of_effect effect_addWorkdir ?_,
    growsAs_of_effect effect_declareExport ?_, growsAs_of_effect effect_setTimeout ?_,
    growsAs_of_effect effect_setName ?_, growsAs_of_effect effect_setGuard ?_, ?rest⟩
  case rest => exact fun e he => absurd he List.not_mem_nil
  case assert | health | port | portFree | enabled | rendered | noLeak | digest |
      assertCredstore =>
    exact growsAs_addAssertion (by decide) rfl
  all_goals decide +kernel

end Handlers

section Lines

theorem grows_beforeDirective (st : State) (keyword : String) :
    Grows st (st.beforeDirective keyword) [] := by
  rw [beforeDirective]
  split
  · exact grows_of_eq rfl rfl
  · exact grows_flush st

theorem grows_applyDirective {st st' : State} {keyword payload : String} {line : Nat}
    (h : st.applyDirective keyword payload line = .ok st')
    (hjoins : ∀ step, (st.beforeDirective keyword).joins keyword payload line = some step →
      Settled step) : ∃ added, Grows st st' added := by
  unfold applyDirective at h
  cases hhandler : handlers.lookup keyword with
  | none =>
    rw [hhandler] at h
    cases h
  | some handler =>
    rw [hhandler] at h
    obtain ⟨before, after, htable, -⟩ := List.lookup_eq_some_iff.mp hhandler
    have hmem : (keyword, handler) ∈ handlers :=
      htable ▸ List.mem_append_right before List.mem_cons_self
    obtain ⟨added, hgrows⟩ := growsAs_handlers (keyword, handler) hmem
      (st.beforeDirective keyword) payload line st' h hjoins
    exact ⟨_, grows_trans (grows_beforeDirective st keyword) hgrows⟩

theorem grows_scanLine {st st' : State} {numbered : List Char × Nat}
    (h : st.scanLine numbered = .ok st') (hjoins : st.JoinsSettled numbered) :
    ∃ added, Grows st st' added := by
  obtain ⟨raw, n⟩ := numbered
  cases effect_scanLine h with
  | body => exact ⟨[], grows_of_eq rfl rfl⟩
  | text => exact ⟨[], grows_of_eq rfl rfl⟩
  | directive hbody hdir heffect =>
    have hread := @readLine_of_directive _ (raw, n) _ _ hbody hdir
    rw [scanLine_of_readLine hread] at h
    exact grows_applyDirective h fun step hstep =>
      hjoins step (by rw [lineJoins_of_directive hread, hstep]; rfl)

theorem grows_run {st st' : State} {lines : List (List Char × Nat)}
    (h : lines.foldlM scanLine st = .ok st') (hjoins : Along scanLine JoinsSettled st lines) :
    ∃ added, Grows st st' added := by
  induction lines generalizing st with
  | nil =>
    cases h
    exact ⟨[], grows_of_eq rfl rfl⟩
  | cons numbered lines ih =>
    rw [List.foldlM_cons] at h
    obtain ⟨mid, hmid, h⟩ := bind_eq_ok.mp h
    obtain ⟨first, hfirst⟩ := grows_scanLine hmid hjoins.1
    obtain ⟨rest, hrest⟩ := ih h (hjoins.2 mid hmid)
    exact ⟨first ++ rest, grows_trans hfirst hrest⟩

theorem handler_of_assertion : ∀ e ∈ assertionParsers, e.1 ≠ "copy" ∧ e.1 ≠ "export" ∧
    handlers.lookup e.1 = some (addAssertion e.1 e.2) := by
  simp only [assertionParsers, List.forall_mem_cons]
  refine ⟨?_, ?_, ?_, ?_, ?_, ?_, ?_, ?_, ?_, fun e he => absurd he List.not_mem_nil⟩
  all_goals exact ⟨by decide, by decide, rfl⟩

/-- The line of an assertion adds its check at its own target. -/
theorem grows_assertion {st st' : State} {numbered : List Char × Nat} {name payload : String}
    {n : Nat} {parse : String → Nat → Except ParseError (Option String × Assertion)}
    {explicit : Option String} {check : Assertion}
    (hread : readLine st.heredocs numbered = .directive name payload n)
    (hlookup : assertionParsers.lookup name = some parse)
    (hparse : parse payload n = .ok (explicit, check)) (h : st.scanLine numbered = .ok st')
    (hjoins : st.JoinsSettled numbered) (hst : st.Inherits) :
    ∃ target, ownTarget st.flush.plan.steps explicit = some target ∧
      Grows st.flush st' [(target, check)] := by
  obtain ⟨before, after, htable, -⟩ := List.lookup_eq_some_iff.mp hlookup
  obtain ⟨hcopy, hexport, hhandler⟩ := handler_of_assertion (name, parse)
    (htable ▸ List.mem_append_right before List.mem_cons_self)
  have hbefore : st.beforeDirective name = st.flush := if_neg hexport
  rw [scanLine_of_readLine hread, applyDirective, hhandler] at h
  obtain ⟨target, hgrows, hown⟩ := grows_addAssertion hcopy hlookup hparse h
    fun step hstep => hjoins step (by rw [lineJoins_of_directive hread, hstep]; rfl)
  rw [hbefore] at hgrows hown
  exact ⟨target, hown ((grows_flush st).inherits hst), hgrows⟩

end Lines

section Script

/-- The scanner reaches this line of the script in this state. -/
def StandsAt (input : String) (st : State) (numbered : List Char × Nat) : Prop :=
  ∃ seen rest, numberedLines input = seen ++ numbered :: rest ∧ seen.foldlM scanLine .new = .ok st

/-- Each assertion has its check in the plan, behind those of the lines before it. The check runs
at the target that the line names, or else at the one of the latest step in front of it. -/
def AssertsInPlace (input : String) (plan : ExecutionPlan) : Prop :=
  ∀ st numbered name parse payload n explicit check, StandsAt input st numbered →
    readLine st.heredocs numbered = .directive name payload n →
    assertionParsers.lookup name = some parse → parse payload n = .ok (explicit, check) →
    st.flush.plan.steps.map Step.targetText? <+: plan.steps.map Step.targetText? ∧
      ∃ target, ownTarget st.flush.plan.steps explicit = some target ∧
        (checksOf plan.steps)[(checksOf st.plan.steps).length]? = some (target, check)

theorem inherits_new : State.new.Inherits := rfl

/-- What one run through a line of the script does, in front of it, at it and behind it. -/
theorem run_at {input : String} {plan : ExecutionPlan} {st : State} {numbered : List Char × Nat}
    (hjoins : Along scanLine JoinsSettled .new (numberedLines input))
    (h : parseScript input = .ok plan) (hstands : StandsAt input st numbered) :
    st.Inherits ∧ st.JoinsSettled numbered ∧ ∃ next, st.scanLine numbered = .ok next ∧
      ∃ final added, Grows next final added ∧ final.plan = plan := by
  obtain ⟨seen, rest, hlines, hseen⟩ := hstands
  obtain ⟨last, hrun, hfinish⟩ := bind_eq_ok.mp h
  rw [hlines] at hrun hjoins
  obtain ⟨hfront, hat, hbehind⟩ := along_of_append hjoins hseen
  rw [List.foldlM_append] at hrun
  obtain ⟨mid, hmid, hrun⟩ := bind_eq_ok.mp hrun
  rw [hseen] at hmid
  cases hmid
  rw [List.foldlM_cons] at hrun
  obtain ⟨next, hnext, hrest⟩ := bind_eq_ok.mp hrun
  obtain ⟨_, hgrows⟩ := grows_run hseen hfront
  obtain ⟨_, hlater⟩ := grows_run hrest (hbehind next hnext)
  exact ⟨hgrows.inherits inherits_new, hat, next, hnext, last.flush, _,
    grows_trans hlater (grows_flush last), (finish_ok hfinish).symm⟩

end Script

end State

open State

/-- Unless a line joins a step whose target is not settled, each assertion runs at its own target;
without one, and without an earlier step to take it from, it is refused. -/
theorem parseScript_asserts_in_place (input : String)
    (hjoins : Along scanLine JoinsSettled .new (numberedLines input)) :
    (∀ plan, parseScript input = .ok plan → AssertsInPlace input plan) ∧
    ∀ st numbered name parse payload n check, StandsAt input st numbered →
      readLine st.heredocs numbered = .directive name payload n →
      assertionParsers.lookup name = some parse → parse payload n = .ok (none, check) →
      latestTarget st.flush.plan.steps = none → ∃ e, parseScript input = .error e := by
  have hplace : ∀ plan, parseScript input = .ok plan → AssertsInPlace input plan := by
    intro plan h st numbered name parse payload n explicit check hstands hread hlookup hparse
    obtain ⟨hst, hat, next, hnext, final, added, hlater, rfl⟩ := run_at hjoins h hstands
    obtain ⟨target, hown, hgrows⟩ := grows_assertion hread hlookup hparse hnext hat hst
    refine ⟨(grows_trans hgrows hlater).targets, target, hown, ?_⟩
    rw [hlater.checks, hgrows.checks, (grows_flush st).checks, List.append_nil, List.append_assoc,
      List.getElem?_append_right (Nat.le_refl _), Nat.sub_self]
    rfl
  refine ⟨hplace, ?_⟩
  intro st numbered name parse payload n check hstands hread hlookup hparse hnone
  cases h : parseScript input with
  | error e => exact ⟨e, rfl⟩
  | ok plan =>
    obtain ⟨-, target, hown, -⟩ :=
      hplace plan h st numbered name parse payload n none check hstands hread hlookup hparse
    rw [ownTarget, hnone] at hown
    cases hown

/-- An assertion behind a remote block, and one that joins it under the same target. -/
def inheritedScript : String := "# @remote a\necho\n# @assert foo\n# @assert bar @a\n"

theorem parseScript_asserts_in_place_inherited :
    (∃ plan, parseScript inheritedScript = .ok plan ∧ AssertsInPlace inheritedScript plan) := by
  have hjoins : Along scanLine JoinsSettled .new (numberedLines inheritedScript) := by
    decide +kernel
  have hok : (parseScript inheritedScript).toOption.isSome = true := by decide +kernel
  cases h : parseScript inheritedScript with
  | error e =>
    rw [h] at hok
    cases hok
  | ok plan => exact ⟨plan, rfl, (parseScript_asserts_in_place inheritedScript hjoins).1 plan h⟩

/-- The second copy joins the first and leaves `@ @x` as the target to inherit. -/
def peeledScript : String := "# @copy a -> b '@ @ @ @x'\n# @copy c -> d '@ @ @x'\n# @assert foo\n"

theorem peeledScript_reaches : ∃ st numbered, StandsAt peeledScript st numbered ∧
    latestTarget st.flush.plan.steps = some "@ @x" ∧ checksOf st.plan.steps = [] ∧
    readLine st.heredocs numbered = .directive "assert" "foo" 3 := by
  have hrun : (((numberedLines peeledScript).take 2).foldlM scanLine .new).toOption.map (fun st =>
      ((numberedLines peeledScript).drop 2,
        latestTarget st.flush.plan.steps == some "@ @x" && (checksOf st.plan.steps).isEmpty,
        (st.heredocs.consumeBody "# @assert foo".toList).2)) =
      some ([("# @assert foo".toList, 3)], true, false) := by
    decide +kernel
  cases hseen : ((numberedLines peeledScript).take 2).foldlM scanLine .new with
  | error e =>
    rw [hseen] at hrun
    cases hrun
  | ok st =>
    rw [hseen] at hrun
    simp only [Except.toOption, Option.map_some, Option.some.injEq, Prod.mk.injEq,
      Bool.and_eq_true, beq_iff_eq, List.isEmpty_iff] at hrun
    obtain ⟨hrest, ⟨htarget, hchecks⟩, hbody⟩ := hrun
    refine ⟨st, ("# @assert foo".toList, 3), ⟨_, [], ?_, hseen⟩, htarget, hchecks, ?_⟩
    · rw [← hrest, List.take_append_drop]
    · exact readLine_of_directive hbody (by decide +kernel)

theorem peeledScript_not_in_place :
    ¬ ∀ input plan, parseScript input = .ok plan → AssertsInPlace input plan := by
  intro hall
  have hchecks : ((parseScript peeledScript).toOption.map fun plan =>
      (checksOf plan.steps).map Prod.fst) = some ["@x"] := by
    decide +kernel
  have hparse : ((parseAssert "foo" 3).toOption.map Prod.fst) = some none := by decide +kernel
  obtain ⟨st, numbered, hstands, htarget, hnone, hread⟩ := peeledScript_reaches
  cases h : parseScript peeledScript with
  | error e =>
    rw [h] at hchecks
    cases hchecks
  | ok plan =>
    cases hassert : parseAssert "foo" 3 with
    | error e =>
      rw [hassert] at hparse
      cases hparse
    | ok parsed =>
      obtain ⟨explicit, check⟩ := parsed
      rw [hassert] at hparse
      have hexplicit : explicit = none := Option.some.inj hparse
      rw [hexplicit] at hassert
      obtain ⟨-, target, hown, hat⟩ :=
        hall peeledScript plan h st numbered "assert" parseAssert "foo" 3 none check hstands hread rfl
          hassert
      rw [h] at hchecks
      have hfirst : ((checksOf plan.steps).map Prod.fst)[0]? = some target := by
        rw [hnone, List.length_nil] at hat
        rw [List.getElem?_map, hat]
        rfl
      have htargets : (checksOf plan.steps).map Prod.fst = ["@x"] := Option.some.inj hchecks
      rw [htargets] at hfirst
      rw [ownTarget, htarget] at hown
      exact absurd (hown.trans hfirst.symm) (by decide)

end Shellflow
