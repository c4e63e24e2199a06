import Shellflow.Dsl.Hosts
import Shellflow.Dsl.WellFormed

/-! What a whole script that is accepted has declared: every plan is well formed. -/
namespace Shellflow
open Fallible State

/-- Names in their order, each once. -/
def SortedNames (names : List String) : Prop := names.Pairwise fun a b => nameLe a b = true ∧ a ≠ b

structure ExecutionPlan.WellFormed (plan : ExecutionPlan) : Prop where
  servers : ∀ server ∈ plan.servers, isValidAliasName server.1 = true ∧ server.2.WellFormed
  serversOrdered : SortedNames (Assoc.keys plan.servers)
  groups : ∀ group ∈ plan.groups, isValidAliasName group.1 = true ∧ group.2 ≠ [] ∧ group.2.Nodup
  groupsOrdered : SortedNames (Assoc.keys plan.groups)
  members : ∀ group ∈ plan.groups, ∀ member ∈ group.2, member ∈ Assoc.keys plan.servers
  env : ∀ entry ∈ plan.env, isValidVarName entry.key = true
  workdir : ∀ workdir, plan.workdir = some workdir → workdir.dirPrefix ≠ "" ∧
    Str.all workdir.dirPrefix (fun c => isAsciiAlphanumeric c || c == '-' || c == '_') = true
  steps : ∀ step ∈ plan.steps, step.WellFormed plan.env

/-- The scan so far: all but that the members of the groups are servers. -/
structure State.Sound (st : State) : Prop where
  servers : ∀ server ∈ st.plan.servers, isValidAliasName server.1 = true ∧ server.2.WellFormed
  serversOrdered : SortedNames (Assoc.keys st.plan.servers)
  groups : ∀ group ∈ st.plan.groups, isValidAliasName group.1 = true ∧ group.2 ≠ [] ∧ group.2.Nodup
  groupsOrdered : SortedNames (Assoc.keys st.plan.groups)
  env : ∀ entry ∈ st.plan.env, isValidVarName entry.key = true
  workdir : ∀ workdir, st.plan.workdir = some workdir → workdir.dirPrefix ≠ "" ∧
    Str.all workdir.dirPrefix (fun c => isAsciiAlphanumeric c || c == '-' || c == '_') = true
  steps : ∀ step ∈ st.plan.steps, step.WellFormed st.plan.env
  named : Labelled st.pendingName
  timed : Positive st.pendingTimeout
  guarded : Labelled st.pendingGuard
  exported : ∀ v ∈ st.pendingExport, isValidVarName v.name = true

section Order
variable {α : Type}

theorem nameLe_total (a b : String) : nameLe a b = true ∨ nameLe b a = true :=
  Str.leChars_total a.toList b.toList

theorem sortedNames_insertSorted {p : String × α} {l : List (String × α)} (hl : SortedNames (Assoc.keys l))
    (hnew : p.1 ∉ Assoc.keys l) : SortedNames (Assoc.keys (Assoc.insertSorted nameLe p l)) := by
  induction l with
  | nil => exact List.pairwise_singleton _ _
  | cons q l ih =>
    obtain ⟨hq, hl⟩ := List.pairwise_cons.mp hl
    obtain ⟨hne, hnew⟩ := not_or.mp (mt List.mem_cons.mpr hnew)
    rw [Assoc.insertSorted]
    split
    next hle =>
      refine List.pairwise_cons.mpr ⟨fun name hname => ?_, List.pairwise_cons.mpr ⟨hq, hl⟩⟩
      rcases List.mem_cons.mp hname with rfl | hname
      · exact ⟨hle, hne⟩
      · exact ⟨Str.leChars_trans hle (hq name hname).1, fun heq => hnew (heq ▸ hname)⟩
    next hle =>
      refine List.pairwise_cons.mpr ⟨fun name hname => ?_, ih hl hnew⟩
      have hmem : name = p.1 ∨ name ∈ Assoc.keys l := by
        obtain ⟨r, hr, rfl⟩ := List.mem_map.mp hname
        rcases Assoc.mem_insertSorted.mp hr with rfl | hr
        · exact .inl rfl
        · exact .inr (Assoc.mem_keys_of_mem hr)
      rcases hmem with rfl | hmem
      · exact ⟨(nameLe_total _ _).resolve_left hle, Ne.symm hne⟩
      · exact hq name hmem

theorem notMem_keys_of_lookup {name : String} {l : List (String × α)} (h : l.lookup name = none) :
    name ∉ Assoc.keys l := by
  rw [Assoc.mem_keys_iff_lookup, h]
  exact Bool.false_ne_true

end Order

section Steps
variable {env env' : List EnvEntry} {step : Step} {st : State}

/-- More variables do no harm to a step. -/
theorem Step.WellFormed.mono (h : step.WellFormed env) (henv : env <+: env') :
    step.WellFormed env' := by
  refine ⟨?_, h.named, h.timed, h.guarded, h.exported⟩
  have haccepted := h.accepted
  cases step with
  | localBlock s => exact ⟨haccepted.1, haccepted.2.trans henv⟩
  | remote s => exact ⟨haccepted.1, haccepted.2.trans henv⟩
  | copy s => exact ⟨haccepted.1, haccepted.2.1, haccepted.2.2.trans henv⟩
  | _ => exact haccepted

theorem State.Sound.stepMeta (h : st.Sound) : st.stepMeta.Sound := ⟨h.named, h.timed⟩

/-- Another list of well-formed steps, with no option pending but those that were. -/
theorem State.Sound.withSteps (h : st.Sound) {steps : List Step}
    (hsteps : ∀ step ∈ steps, step.WellFormed st.plan.env) : (st.withSteps steps).Sound :=
  { h with steps := hsteps }

theorem labelled_none : Labelled none := by
  intro label h
  cases h

theorem positive_none : Positive none := by
  intro n h
  cases h

theorem State.Sound.takeMeta (h : st.Sound) : st.takeMeta.Sound :=
  { h with named := labelled_none, timed := positive_none }

theorem sound_emit (h : st.Sound) {target : String} (hstep : step.WellFormed st.plan.env) :
    (st.emit target step).Sound :=
  { h.takeMeta.withSteps (List.forall_mem_append.mpr ⟨h.steps, List.forall_mem_singleton.mpr hstep⟩) with }

theorem sound_replaceLast (h : st.Sound) (hstep : step.WellFormed st.plan.env) :
    (st.replaceLast step).Sound :=
  h.takeMeta.withSteps (List.forall_mem_append.mpr
    ⟨fun s hs => h.steps s (List.dropLast_subset _ hs), List.forall_mem_singleton.mpr hstep⟩)

theorem isBlockScript (h : st.hasExecutable = true) : IsBlockScript st.blockScript := by
  obtain ⟨line, hline, hcommand⟩ := List.any_eq_true.mp h
  refine ⟨st.pending, rfl, line, hline, ?_⟩
  simpa using hcommand

theorem wellFormed_blockStep (h : st.Sound) (hexec : st.hasExecutable = true) :
    st.blockStep.WellFormed st.plan.env := by
  have hscript := isBlockScript hexec
  rw [blockStep]
  cases st.mode with
  | localMode =>
    exact ⟨⟨hscript, List.prefix_refl _⟩, h.named, h.timed, h.guarded, h.exported⟩
  | remoteMode =>
    exact ⟨⟨hscript, List.prefix_refl _⟩, h.named, h.timed, h.guarded, List.forall_mem_nil _⟩

theorem sound_flush (h : st.Sound) : st.flush.Sound := by
  rw [flush]
  split
  next hexec =>
    have hsteps := List.forall_mem_append.mpr
      ⟨h.steps, List.forall_mem_singleton.mpr (wellFormed_blockStep h hexec)⟩
    exact { h.withSteps hsteps with
      named := labelled_none, timed := positive_none, guarded := labelled_none
      exported := List.forall_mem_nil _ }
  next => exact { h with }

theorem mem_of_assertMergeable {target : String} {existing : AssertStep}
    (h : st.assertMergeable target = some existing) : Step.assert existing ∈ st.plan.steps :=
  List.mem_of_getLast? (assertMergeable_last h)

theorem sound_pushAssertion (h : st.Sound) {target : String} {line : Nat} {check : Assertion}
    (hcheck : check.Accepted) : (st.pushAssertion target line check).Sound := by
  rw [pushAssertion]
  cases hmerge : st.assertMergeable target with
  | none =>
    exact sound_emit h (.of_host not_false (List.forall_mem_singleton.mpr hcheck) h.named h.timed)
  | some existing =>
    have hold := h.steps _ (mem_of_assertMergeable hmerge)
    exact sound_replaceLast h (.of_host not_false
      (List.forall_mem_append.mpr ⟨hold.accepted, List.forall_mem_singleton.mpr hcheck⟩) hold.named
      hold.timed)

theorem sound_pushCopy (h : st.Sound) {payload : String} {line line' : Nat} {c : CopyDirective}
    (hc : parseCopy payload line' = .ok c) : (st.pushCopy c line).Sound := by
  obtain ⟨hsrc, hdst, hglobs⟩ := parseCopy_args hc
  rw [pushCopy]
  cases hmerge : st.copyMergeable c with
  | none =>
    exact sound_emit h (.of_host not_false ⟨List.forall_mem_singleton.mpr ⟨hsrc, hdst⟩, hglobs,
      List.prefix_refl _⟩ h.named h.timed)
  | some existing =>
    have hold := h.steps _ (List.mem_of_getLast? (copyMergeable_last hmerge))
    have hentries := List.forall_mem_append.mpr
      ⟨hold.accepted.1, List.forall_mem_singleton.mpr ⟨hsrc, hdst⟩⟩
    have hstep : (Step.copy { existing with
        entries := existing.entries ++ [c.entry]
        entries_ne := List.append_ne_nil_of_right_ne_nil _ (List.cons_ne_nil _ _)
        }).WellFormed st.plan.env :=
      .of_host not_false ⟨hentries, hold.accepted.2⟩ hold.named hold.timed
    exact { sound_replaceLast h hstep with }

end Steps

section Handlers

/-- A directive keeps the scan sound. -/
def KeepsSound (handler : Handler) : Prop :=
  ∀ st payload line st', State.Sound st → handler st payload line = .ok st' → st'.Sound

theorem keepsSound_addStep {α : Type} {directive : String} {wrap : α → Step}
    {parse : StepMeta → String → Nat → Except ParseError (String × α)}
    (hparse : ∀ {m payload target line step} (env : List EnvEntry), m.Sound →
      parse m payload line = .ok (target, step) → (wrap step).WellFormed env) :
    KeepsSound (addStep directive wrap parse) := by
  intro st payload line st' hst h
  obtain ⟨_, -, h⟩ := bind_eq_ok.mp h
  obtain ⟨⟨target, step⟩, hstep, h⟩ := bind_eq_ok.mp h
  cases h
  exact sound_emit hst (hparse st.plan.env hst.stepMeta hstep)

theorem keepsSound_addAssertion {directive : String}
    {parse : String → Nat → Except ParseError (Option String × Assertion)}
    (hparse : ∀ {payload line explicit check}, parse payload line = .ok (explicit, check) →
      check.Accepted) : KeepsSound (addAssertion directive parse) := by
  intro st payload line st' hst h
  obtain ⟨_, -, h⟩ := bind_eq_ok.mp h
  obtain ⟨⟨explicit, check⟩, hcheck, h⟩ := bind_eq_ok.mp h
  obtain ⟨target, -, h⟩ := bind_eq_ok.mp h
  cases h
  exact sound_pushAssertion hst (hparse hcheck)

theorem State.Sound.localLines {st : State} (h : st.Sound) : st.localLines.Sound := { h with }

theorem keepsSound_copyFiles : KeepsSound copyFiles := by
  intro st payload line st' hst h
  obtain ⟨_, -, h⟩ := bind_eq_ok.mp h
  obtain ⟨c, hc, h⟩ := bind_eq_ok.mp h
  cases h
  exact sound_pushCopy hst.localLines hc

theorem parseServer_spec {plan : ExecutionPlan} {payload : String} {line : Nat}
    {server : String × SshSpec} (h : parseServer plan payload line = .ok server) :
    server.2.WellFormed := by
  obtain ⟨⟨name, spec⟩, -, h⟩ := bind_eq_ok.mp h
  dsimp only at h
  split at h
  · cases h
  · obtain ⟨parsed, hspec, h⟩ := bind_eq_ok.mp h
    cases h
    unfold serverSpec at hspec
    split at hspec
    · cases hspec
    · exact SshSpec.wellFormed_of_parse hspec

theorem keepsSound_declareServer : KeepsSound declareServer := by
  intro st payload line st' hst h
  obtain ⟨server, hserver, h⟩ := bind_eq_ok.mp h
  obtain ⟨hname, hnew⟩ := parseServer_ok hserver
  cases h
  refine { hst with
    servers := fun other hother => ?_
    serversOrdered := sortedNames_insertSorted hst.serversOrdered (notMem_keys_of_lookup hnew) }
  rcases Assoc.mem_insertSorted.mp hother with rfl | hother
  · exact ⟨hname, parseServer_spec hserver⟩
  · exact hst.servers other hother

theorem keepsSound_declareGroup : KeepsSound declareGroup := by
  intro st payload line st' hst h
  obtain ⟨group, hgroup, h⟩ := bind_eq_ok.mp h
  obtain ⟨hname, -, hnew⟩ := parseGroup_ok hgroup
  cases h
  refine { hst with
    groups := fun other hother => ?_
    groupsOrdered := sortedNames_insertSorted hst.groupsOrdered (notMem_keys_of_lookup hnew) }
  rcases Assoc.mem_insertSorted.mp hother with rfl | hother
  · exact ⟨hname, parseGroup_members hgroup⟩
  · exact hst.groups other hother

theorem parseEnv_key {payload : String} {line : Nat} {entry : EnvEntry}
    (h : parseEnv payload line = .ok entry) : isValidVarName entry.key = true := by
  obtain ⟨_, -, h⟩ := bind_eq_ok.mp h
  split at h
  · obtain ⟨_, hkey, h⟩ := bind_eq_ok.mp h
    cases h
    exact ensure_ok hkey
  · obtain ⟨_, hkey, h⟩ := bind_eq_ok.mp h
    cases h
    exact ensure_ok hkey

theorem keepsSound_declareEnv : KeepsSound declareEnv := by
  intro st payload line st' hst h
  obtain ⟨entry, hentry, h⟩ := bind_eq_ok.mp h
  cases h
  exact { hst with
    env := List.forall_mem_append.mpr ⟨hst.env, List.forall_mem_singleton.mpr (parseEnv_key hentry)⟩
    steps := fun step hstep => (hst.steps step hstep).mono (List.prefix_append _ _) }

theorem keepsSound_declareSecrets : KeepsSound declareSecrets := by
  intro st payload line st' hst h
  obtain ⟨entry, -, h⟩ := bind_eq_ok.mp h
  cases h
  exact { hst with }

theorem keepsSound_enterLocal : KeepsSound enterLocal := by
  intro st payload line st' hst h
  cases h
  exact hst.localLines

theorem keepsSound_enterRemote : KeepsSound enterRemote := by
  intro st payload line st' hst h
  obtain ⟨target, -, h⟩ := bind_eq_ok.mp h
  cases h
  exact { hst with }

/-- A name for the directories of a run. -/
def IsDirPrefix (name : String) : Prop :=
  name ≠ "" ∧ Str.all name (fun c => isAsciiAlphanumeric c || c == '-' || c == '_') = true

theorem workdirFlag_name {line : Nat} {acc name : String} {flag : Flag}
    (h : workdirFlag line acc flag = .ok name) : IsDirPrefix name := by
  unfold workdirFlag at h
  split at h
  · obtain ⟨raw, -, h⟩ := bind_eq_ok.mp h
    obtain ⟨_, hraw, h⟩ := bind_eq_ok.mp h
    rw [← Except.ok.inj h]
    have hchecked := ensure_ok hraw
    exact ⟨of_decide_eq_true (Bool.and_eq_true_iff.mp hchecked).1, (Bool.and_eq_true_iff.mp hchecked).2⟩
  · cases h

theorem keepsSound_addWorkdir : KeepsSound addWorkdir := by
  intro st payload line st' hst h
  obtain ⟨workdir, hworkdir, h⟩ := bind_eq_ok.mp h
  obtain ⟨_, -, h⟩ := bind_eq_ok.mp h
  obtain ⟨⟨positional, flags⟩, -, hworkdir⟩ := bind_eq_ok.mp hworkdir
  obtain ⟨name, hname, hworkdir⟩ := bind_eq_ok.mp hworkdir
  have hshellflow : IsDirPrefix "shellflow" := ⟨by decide, by decide +kernel⟩
  have hchecked := foldlM_invariant IsDirPrefix (fun _ _ _ _ hstep => workdirFlag_name hstep)
    hshellflow hname
  cases hworkdir
  cases h
  refine { hst with workdir := fun declared hdeclared => ?_ }
  rw [← Option.some.inj hdeclared]
  exact hchecked

theorem keepsSound_declareExport : KeepsSound declareExport := by
  intro st payload line st' hst h
  obtain ⟨vars, hvars, h⟩ := bind_eq_ok.mp h
  have hnames := parseExport_names hvars
  split at h
  · split at h
    · cases h
      exact { hst with exported := List.forall_mem_append.mpr ⟨hst.exported, hnames⟩ }
    · cases h
  · split at h
    next s hlast =>
      cases h
      have hold := hst.steps _ (List.mem_of_getLast? hlast)
      have hstep : (Step.localBlock { s with exports := s.exports ++ vars }).WellFormed st.plan.env :=
        ⟨hold.accepted, hold.named, hold.timed, hold.guarded,
          List.forall_mem_append.mpr ⟨hold.exported, hnames⟩⟩
      exact hst.withSteps (List.forall_mem_append.mpr
        ⟨fun step hs => hst.steps step (List.dropLast_subset _ hs), List.forall_mem_singleton.mpr hstep⟩)
    next => cases h

theorem keepsSound_setTimeout : KeepsSound setTimeout := by
  intro st payload line st' hst h
  obtain ⟨seconds, -, h⟩ := bind_eq_ok.mp h
  obtain ⟨_, hpos, h⟩ := bind_eq_ok.mp h
  have hne := of_decide_eq_true (ensure_ok hpos)
  cases h
  refine { hst with timed := fun n hn => ?_ }
  rw [← Option.some.inj hn]
  exact Nat.pos_of_ne_zero hne

theorem labelled_trim {payload : String} {line : Nat} {directive reason : String}
    (h : ensure (Str.trim payload ≠ "") line directive reason = .ok ()) :
    Labelled (some (Str.trim payload)) := by
  intro label hlabel
  rw [← Option.some.inj hlabel]
  exact of_decide_eq_true (ensure_ok h)

theorem keepsSound_setName : KeepsSound setName := by
  intro st payload line st' hst h
  obtain ⟨_, hlabel, h⟩ := bind_eq_ok.mp h
  cases h
  exact { hst with named := labelled_trim hlabel }

theorem keepsSound_setGuard : KeepsSound setGuard := by
  intro st payload line st' hst h
  obtain ⟨_, hlabel, h⟩ := bind_eq_ok.mp h
  cases h
  exact { hst with guarded := labelled_trim hlabel }

theorem keepsSound_handlers : ∀ e ∈ handlers, KeepsSound e.2 := by
  simp only [handlers, List.forall_mem_cons]
  exact ⟨keepsSound_declareServer, keepsSound_declareGroup, keepsSound_declareEnv,
    keepsSound_declareSecrets, keepsSound_enterLocal, keepsSound_enterRemote, keepsSound_copyFiles,
    keepsSound_addStep fun _ => wellFormed_parseWait,
    keepsSound_addStep fun _ => wellFormed_parseReload,
    keepsSound_addAssertion accepted_parseAssert,
    keepsSound_addAssertion accepted_parseAssertHealth,
    keepsSound_addAssertion accepted_parseAssertPort,
    keepsSound_addAssertion accepted_parseAssertPortFree,
    keepsSound_addAssertion accepted_parseAssertEnabled,
    keepsSound_addAssertion accepted_parseAssertRendered,
    keepsSound_addStep fun _ => wellFormed_parseService,
    keepsSound_addStep fun _ => wellFormed_parseInstall,
    keepsSound_addStep fun _ => wellFormed_parseBackup,
    keepsSound_addStep fun _ => wellFormed_parseCredstore,
    keepsSound_addAssertion accepted_parseAssertNoLeak,
    keepsSound_addAssertion accepted_parseAssertDigest,
    keepsSound_addAssertion accepted_parseAssertCredstore,
    keepsSound_addStep fun _ => wellFormed_parseUnitInventory,
    keepsSound_addStep fun _ => wellFormed_parseHelper,
    keepsSound_addStep fun _ => wellFormed_parseRelease,
    keepsSound_addStep fun _ => wellFormed_parseBuild,
    keepsSound_addStep fun _ => wellFormed_parseToolchain,
    keepsSound_addStep fun _ => wellFormed_parseImage, keepsSound_addWorkdir,
    keepsSound_declareExport, keepsSound_setTimeout, keepsSound_setName, keepsSound_setGuard,
    List.forall_mem_nil _⟩

end Handlers

section Scan
variable {st st' : State}

theorem sound_new : State.new.Sound where
  servers := List.forall_mem_nil _
  serversOrdered := List.Pairwise.nil
  groups := List.forall_mem_nil _
  groupsOrdered := List.Pairwise.nil
  env := List.forall_mem_nil _
  workdir := fun workdir h => by cases h
  steps := List.forall_mem_nil _
  named := labelled_none
  timed := positive_none
  guarded := labelled_none
  exported := List.forall_mem_nil _

theorem sound_applyDirective {keyword payload : String} {line : Nat} (hst : st.Sound)
    (h : st.applyDirective keyword payload line = .ok st') : st'.Sound := by
  have hbefore : (st.beforeDirective keyword).Sound := by
    rw [beforeDirective]
    split
    · exact hst
    · exact sound_flush hst
  unfold applyDirective at h
  split at h
  next handler hhandler =>
    exact keepsSound_handlers _ (mem_of_lookup hhandler) _ payload line st' hbefore h
  next => cases h

theorem sound_scanLine {numbered : List Char × Nat} (hst : st.Sound)
    (h : st.scanLine numbered = .ok st') : st'.Sound := by
  simp only [scanLine] at h
  split at h
  · cases h
    exact { hst with }
  · split at h
    · exact sound_applyDirective hst h
    · cases h
      exact { hst with }

theorem wellFormed_finish {plan : ExecutionPlan} (hst : st.Sound) (h : st.finish = .ok plan) :
    plan.WellFormed := by
  obtain ⟨-, -, hmembers⟩ := names_of_finish h
  have hflush := sound_flush hst
  have hplan : plan = st.flush.plan := by
    unfold finish at h
    split at h
    · cases h
    · split at h
      · cases h
      · exact (Except.ok.inj h).symm
  subst hplan
  exact ⟨hflush.servers, hflush.serversOrdered, hflush.groups, hflush.groupsOrdered,
    fun group hgroup member hmember =>
      Assoc.mem_keys_iff_lookup.mpr (hmembers group hgroup member hmember),
    hflush.env, hflush.workdir, hflush.steps⟩

/-- Every plan of an accepted script is well formed: no step, server or group has an argument that
the later stages would have to refuse. -/
theorem parseScript_wellFormed (input : String) (plan : ExecutionPlan)
    (h : parseScript input = .ok plan) : plan.WellFormed := by
  obtain ⟨final, hrun, hfinish⟩ := bind_eq_ok.mp h
  exact wellFormed_finish
    (foldlM_invariant State.Sound (fun _ _ _ hst hstep => sound_scanLine hst hstep) sound_new hrun)
    hfinish

def deployScript : String :=
  "# @server web deploy@10.0.0.1:22\n# @group all web\n# @env STAGE=live\n# @name notes\n" ++
  "# @only_if true\n# @timeout 5\n# @remote all\necho hi\n# @copy app.tar -> /opt/app.tar @web\n" ++
  "# @service app @web --restart\n# @assert_port 80,443 @web\n"

theorem parseScript_wellFormed_deploy :
    ∃ plan, parseScript deployScript = .ok plan ∧ plan.steps.length = 4 ∧ plan.WellFormed := by
  have hsteps : (parseScript deployScript).toOption.map (·.steps.length) = some 4 := by
    decide +kernel
  cases hplan : parseScript deployScript with
  | ok plan =>
    rw [hplan] at hsteps
    exact ⟨plan, rfl, Option.some.inj hsteps, parseScript_wellFormed deployScript plan hplan⟩
  | error e =>
    rw [hplan] at hsteps
    cases hsteps

end Scan

end Shellflow
