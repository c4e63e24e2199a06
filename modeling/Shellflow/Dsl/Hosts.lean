import Shellflow.Dsl.Located
import Shellflow.Dsl.Resolve

/-! Which hosts a step runs on: the members of its target that the restriction lets through. -/
namespace Shellflow
open Fallible State

/-- The members of a group, or the one name that the text stands for. -/
def targetMembers (plan : ExecutionPlan) (text : String) : List String :=
  (plan.groups.lookup (targetText text)).getD [targetText text]

/-- No restriction, or one of its names has the host. -/
def Admits (plan : ExecutionPlan) (restrict : List String) (name : String) : Prop :=
  restrict = [] ∨ ∃ item ∈ restrict, name ∈ targetMembers plan item

instance (plan : ExecutionPlan) (restrict : List String) :
    DecidablePred (Admits plan restrict) :=
  fun name => inferInstanceAs
    (Decidable (restrict = [] ∨ ∃ item ∈ restrict, name ∈ targetMembers plan item))

/-- The target names neither a group nor a server. -/
def Unnamed (plan : ExecutionPlan) (target : Target) : Prop :=
  plan.groups.lookup (targetText target.text) = none ∧
    plan.servers.lookup (targetText target.text) = none

/-- A declared server, or the destination that the target itself is. -/
def HostOf (plan : ExecutionPlan) (target : Target) (host : ResolvedHost) : Prop :=
  plan.servers.lookup host.hostAlias = some host.spec ∨
    Unnamed plan target ∧ host.hostAlias = targetText target.text ∧
      serverSpec host.hostAlias target.line = .ok host.spec

/-- Why a target has no hosts: it is blank, the restriction leaves none of its members, or it is
no name and no destination. -/
inductive Unresolvable (plan : ExecutionPlan) (target : Target) (restrict : List String) :
    ParseError → Prop
  | blank (h : targetText target.text = "") : Unresolvable plan target restrict (.emptyTarget target.text)
  | excluded (h : ∀ name ∈ targetMembers plan target.text, ¬ Admits plan restrict name) :
      Unresolvable plan target restrict (.emptyTarget target.text)
  | destination {e : ParseError} (h : Unnamed plan target)
      (hspec : serverSpec (targetText target.text) target.line = .error e) :
      Unresolvable plan target restrict e

/-- A group has members, each of them once. -/
def GroupsSound (plan : ExecutionPlan) : Prop :=
  ∀ name members, plan.groups.lookup name = some members → members ≠ [] ∧ members.Nodup

section Groups

theorem members_of_groupMember {name member : String} {line : Nat} {members members' : List String}
    (h : groupMember name line members member = .ok members') :
    members' = Assoc.pushNew members member := by
  obtain ⟨_, -, h⟩ := bind_eq_ok.mp h
  cases h
  rfl

theorem nodup_groupMembers {name : String} {line : Nat} {raw members : List String}
    (h : raw.foldlM (groupMember name line) [] = .ok members) : members.Nodup := by
  refine foldlM_invariant List.Nodup (fun s i t hs hstep => ?_) List.nodup_nil h
  rw [members_of_groupMember hstep]
  exact Assoc.nodup_pushNew hs

theorem ne_nil_of_groupMembers {name : String} {line : Nat} {raw members : List String}
    (hraw : raw ≠ []) (h : raw.foldlM (groupMember name line) [] = .ok members) :
    members ≠ [] := by
  cases raw with
  | nil => exact absurd rfl hraw
  | cons member raw =>
    rw [List.foldlM_cons] at h
    obtain ⟨first, hfirst, h⟩ := bind_eq_ok.mp h
    refine foldlM_invariant (fun members => members ≠ []) (fun s i t hs hstep => ?_) ?_ h
    · rw [members_of_groupMember hstep]
      exact Assoc.pushNew_ne_nil s i
    · rw [members_of_groupMember hfirst]
      exact Assoc.pushNew_ne_nil [] member

theorem parseGroup_members {plan : ExecutionPlan} {payload : String} {line : Nat}
    {g : String × List String} (h : parseGroup plan payload line = .ok g) :
    g.2 ≠ [] ∧ g.2.Nodup := by
  obtain ⟨⟨name, members⟩, -, h⟩ := bind_eq_ok.mp h
  obtain ⟨_, -, h⟩ := bind_eq_ok.mp h
  obtain ⟨_, -, h⟩ := bind_eq_ok.mp h
  obtain ⟨_, hraw, h⟩ := bind_eq_ok.mp h
  obtain ⟨_, -, h⟩ := bind_eq_ok.mp h
  obtain ⟨parsed, hparsed, h⟩ := bind_eq_ok.mp h
  cases h
  have hsome : commaList members ≠ [] := by
    have hempty := ensure_ok hraw
    intro hnil
    rw [hnil] at hempty
    cases hempty
  exact ⟨ne_nil_of_groupMembers hsome hparsed, nodup_groupMembers hparsed⟩

theorem members_of_declaredBy {st : State} {numbered : List Char × Nat} {name : String}
    {members : List String} (h : declaredBy st numbered = some (.group name members)) :
    members ≠ [] ∧ members.Nodup := by
  unfold declaredBy at h
  split at h
  · cases h
  · split at h
    · rw [Option.map_eq_some_iff] at h
      obtain ⟨server, -, h⟩ := h
      cases h
    next payload hdir =>
      rw [Option.map_eq_some_iff] at h
      obtain ⟨group, hgroup, h⟩ := h
      cases h
      cases hparse : parseGroup st.plan payload numbered.2 with
      | error e =>
        rw [hparse] at hgroup
        cases hgroup
      | ok found =>
        rw [hparse] at hgroup
        cases hgroup
        exact parseGroup_members hparse
    · cases h

/-- Every line keeps the groups sound; only a `@group` line adds one. -/
theorem groupsSound_scanLine (st : State) (numbered : List Char × Nat) (st' : State)
    (hst : GroupsSound st.plan) (h : st.scanLine numbered = .ok st') : GroupsSound st'.plan := by
  intro name members hname
  cases nameEffect_scanLine h with
  | keep hdecl hservers hgroups => exact hst name members (hgroups ▸ hname)
  | server other spec hdecl halias hnew hservers hgroups =>
    exact hst name members (hgroups ▸ hname)
  | group other members' hdecl halias hserver hnew hservers hgroups =>
    rw [hgroups] at hname
    by_cases hother : name = other
    · rw [if_pos hother] at hname
      cases hname
      exact members_of_declaredBy hdecl
    · rw [if_neg hother] at hname
      exact hst name members hname

theorem groupsSound_of_run {lines : List (List Char × Nat)} {final : State}
    (h : lines.foldlM scanLine .new = .ok final) : GroupsSound final.plan := by
  refine foldlM_invariant (fun st => GroupsSound st.plan) groupsSound_scanLine ?_ h
  intro name members hname
  cases hname

end Groups

section Resolution
variable {plan : ExecutionPlan} {target : Target} {restrict : List String}

theorem mem_allowedAliases {name : String} :
    name ∈ allowedAliases plan restrict ↔ ∃ item ∈ restrict, name ∈ targetMembers plan item :=
  List.mem_flatMap

/-- The hosts of a target before any restriction. -/
def HostsOf (plan : ExecutionPlan) (target : Target) (hosts : List ResolvedHost) : Prop :=
  hosts.map (·.hostAlias) = targetMembers plan target.text ∧
    ∀ host ∈ hosts, HostOf plan target host

theorem targetHosts_cases (target : Target) (restrict : List String)
    (hmembers : ∀ group ∈ plan.groups, ∀ member ∈ group.2,
      (plan.servers.lookup member).isSome) :
    (∃ hosts, targetHosts plan target = .ok hosts ∧ HostsOf plan target hosts) ∨
      ∃ e, targetHosts plan target = .error e ∧ Unresolvable plan target restrict e := by
  by_cases hblank : targetText target.text = ""
  · exact .inr ⟨_, by simp [targetHosts, hblank], .blank hblank⟩
  · cases hgroup : plan.groups.lookup (targetText target.text) with
    | some members =>
      obtain ⟨hosts, hok, hnames, hspecs⟩ := mapM_memberHost target.line (targetText target.text)
        (hmembers _ (mem_of_lookup hgroup))
      refine .inl ⟨hosts, by simp [targetHosts, hblank, hgroup, hok], ?_, ?_⟩
      · rw [hnames, targetMembers, hgroup, Option.getD_some]
      · exact fun host hhost => .inl (hspecs host hhost)
    | none =>
      have hself : targetMembers plan target.text = [targetText target.text] := by
        rw [targetMembers, hgroup, Option.getD_none]
      cases hserver : plan.servers.lookup (targetText target.text) with
      | some spec =>
        refine .inl ⟨[⟨targetText target.text, spec⟩],
          by simp [targetHosts, hblank, hgroup, hserver], hself.symm, ?_⟩
        exact List.forall_mem_singleton.mpr (.inl hserver)
      | none =>
        cases hspec : serverSpec (targetText target.text) target.line with
        | ok spec =>
          refine .inl ⟨[⟨targetText target.text, spec⟩], ?_, hself.symm, ?_⟩
          · simp [targetHosts, hblank, hgroup, hserver, rawHost, hspec, bind, Except.bind]
          · exact List.forall_mem_singleton.mpr (.inr ⟨⟨hgroup, hserver⟩, rfl, hspec⟩)
        | error e =>
          refine .inr ⟨e, ?_, .destination ⟨hgroup, hserver⟩ hspec⟩
          simp [targetHosts, hblank, hgroup, hserver, rawHost, hspec, bind, Except.bind]

/-- A filter on the hosts by their names is the filter on the names. -/
theorem names_filter (p : String → Prop) [DecidablePred p] (hosts : List ResolvedHost) :
    (hosts.filter fun host => p host.hostAlias).map (·.hostAlias) =
      (hosts.map (·.hostAlias)).filter p := by
  rw [List.filter_map]
  rfl

theorem targetMembers_sound (hsound : GroupsSound plan) (text : String) :
    targetMembers plan text ≠ [] ∧ (targetMembers plan text).Nodup := by
  unfold targetMembers
  cases hgroup : plan.groups.lookup (targetText text) with
  | none => exact ⟨List.cons_ne_nil _ _, List.nodup_singleton _⟩
  | some members => exact hsound _ _ hgroup

/-- What the restriction leaves of the hosts of a target. -/
theorem resolveHosts_of_targetHosts (restrict : List String) {hosts : List ResolvedHost}
    (hsound : GroupsSound plan)
    (hok : targetHosts plan target = .ok hosts) (hnames : hosts.map (·.hostAlias) =
      targetMembers plan target.text) :
    (∃ kept, resolveHosts plan target restrict = .ok kept ∧ kept ≠ [] ∧ kept.Sublist hosts ∧
        kept.map (·.hostAlias) = (targetMembers plan target.text).filter (Admits plan restrict)) ∨
      resolveHosts plan target restrict = .error (.emptyTarget target.text) ∧
        ∀ name ∈ targetMembers plan target.text, ¬ Admits plan restrict name := by
  by_cases hall : restrict = []
  · subst hall
    refine .inl ⟨hosts, by rw [resolveHosts, hok]; rfl, ?_, List.Sublist.refl hosts, ?_⟩
    · rintro rfl
      exact (targetMembers_sound hsound target.text).1 hnames.symm
    · rw [hnames, List.filter_eq_self.mpr]
      exact fun name _ => decide_eq_true (.inl rfl)
  · have hadmits : ∀ name, name ∈ allowedAliases plan restrict ↔ Admits plan restrict name := by
      intro name
      rw [mem_allowedAliases, Admits, or_iff_right hall]
    have hkept : hosts.filter (fun host => host.hostAlias ∈ allowedAliases plan restrict) =
        hosts.filter fun host => Admits plan restrict host.hostAlias :=
      List.filter_congr fun host _ => decide_eq_decide.mpr (hadmits host.hostAlias)
    have hresolve : resolveHosts plan target restrict =
        if (hosts.filter fun host => Admits plan restrict host.hostAlias).isEmpty
        then .error (.emptyTarget target.text)
        else .ok (hosts.filter fun host => Admits plan restrict host.hostAlias) := by
      rw [resolveHosts, hok, ← hkept]
      simp [bind, Except.bind, hall]
    cases hempty : (hosts.filter fun host => Admits plan restrict host.hostAlias).isEmpty with
    | true =>
      refine .inr ⟨by rw [hresolve, hempty, if_pos rfl], fun name hname hadmit => ?_⟩
      have hnone : (targetMembers plan target.text).filter (Admits plan restrict) = [] := by
        rw [← hnames, ← names_filter, List.isEmpty_iff.mp hempty, List.map_nil]
      have hmem : name ∈ (targetMembers plan target.text).filter (Admits plan restrict) :=
        List.mem_filter.mpr ⟨hname, decide_eq_true hadmit⟩
      rw [hnone] at hmem
      cases hmem
    | false =>
      refine .inl ⟨_, by rw [hresolve, hempty]; rfl, ?_, List.filter_sublist, ?_⟩
      · rintro hnil
        rw [hnil] at hempty
        cases hempty
      · rw [names_filter, hnames]

theorem not_unknownGroupMember {line : Nat} {group server : String} :
    ¬ Unresolvable plan target restrict (.unknownGroupMember line group server) := by
  intro h
  cases h with
  | destination hunnamed hspec =>
    unfold serverSpec at hspec
    cases hparse : SshSpec.parse (targetText target.text) with
    | ok parsed =>
      rw [hparse] at hspec
      cases hspec
    | error e =>
      have habout := SshSpec.aboutSpec_parse e hparse
      rw [hparse] at hspec
      cases e with
      | invalidSshSpec l spec reason => cases hspec
      | _ => exact habout.elim

end Resolution

/-- The hosts of a target are its members that the restriction lets through, in their order and
each of them once, and no member is unknown. -/
theorem resolveHosts_exact (input : String) (plan : ExecutionPlan)
    (h : parseScript input = .ok plan) (target : Target) (restrict : List String) :
    (∃ hosts, resolveHosts plan target restrict = .ok hosts ∧ hosts ≠ [] ∧
        hosts.map (·.hostAlias) =
          (targetMembers plan target.text).filter (Admits plan restrict) ∧
        (hosts.map (·.hostAlias)).Nodup ∧ ∀ host ∈ hosts, HostOf plan target host) ∨
      ∃ e, resolveHosts plan target restrict = .error e ∧ Unresolvable plan target restrict e ∧
        ∀ line group server, e ≠ .unknownGroupMember line group server := by
  obtain ⟨final, hrun, hfinish⟩ := bind_eq_ok.mp h
  obtain ⟨-, hgroups, hmembers⟩ := names_of_finish hfinish
  have hsound : GroupsSound plan := by
    intro name members hname
    exact groupsSound_of_run hrun name members (hgroups ▸ hname)
  have hrefused : ∀ e, resolveHosts plan target restrict = .error e →
      Unresolvable plan target restrict e → ∃ e, resolveHosts plan target restrict = .error e ∧
        Unresolvable plan target restrict e ∧
        ∀ line group server, e ≠ .unknownGroupMember line group server := by
    intro e herror hwhy
    refine ⟨e, herror, hwhy, fun line group server he => ?_⟩
    exact not_unknownGroupMember (he ▸ hwhy)
  cases targetHosts_cases target restrict hmembers with
  | inr hfailed =>
    obtain ⟨e, herror, hwhy⟩ := hfailed
    refine .inr (hrefused e ?_ hwhy)
    rw [resolveHosts, herror]
    rfl
  | inl hfound =>
    obtain ⟨hosts, hok, hnames, hspecs⟩ := hfound
    cases resolveHosts_of_targetHosts restrict hsound hok hnames with
    | inr hempty => exact .inr (hrefused _ hempty.1 (.excluded hempty.2))
    | inl hkept =>
      obtain ⟨kept, hresolve, hne, hsub, hfilter⟩ := hkept
      refine .inl ⟨kept, hresolve, hne, hfilter, ?_, fun host hhost => ?_⟩
      · rw [hfilter]
        exact (targetMembers_sound hsound target.text).2.filter _
      · exact hspecs host (hsub.subset hhost)

/-- Two servers, and a group of both. -/
def groupScript : String := "# @server a h1\n# @server b h2\n# @group both b,a,b\n"

theorem resolveHosts_exact_both : ∃ plan, parseScript groupScript = .ok plan ∧
    ((∃ hosts, resolveHosts plan ⟨"both", 1⟩ ["@b"] = .ok hosts ∧ hosts ≠ [] ∧
        hosts.map (·.hostAlias) = (targetMembers plan "both").filter (Admits plan ["@b"]) ∧
        (hosts.map (·.hostAlias)).Nodup ∧ ∀ host ∈ hosts, HostOf plan ⟨"both", 1⟩ host) ∨
      ∃ e, resolveHosts plan ⟨"both", 1⟩ ["@b"] = .error e ∧ Unresolvable plan ⟨"both", 1⟩ ["@b"] e ∧
        ∀ line group server, e ≠ .unknownGroupMember line group server) := by
  have hok : (parseScript groupScript).toOption.isSome = true := by decide +kernel
  cases h : parseScript groupScript with
  | error e =>
    rw [h] at hok
    cases hok
  | ok plan => exact ⟨plan, rfl, resolveHosts_exact groupScript plan h ⟨"both", 1⟩ ["@b"]⟩

/-- No server, and a step on a destination. -/
def destinationScript : String := "# @remote deploy@h\necho hi\n"

/-- A block on a remote host is there, and its target has hosts, but no server is. -/
def onDestination (plan : ExecutionPlan) : Step → Bool
  | .remote block =>
    plan.servers.isEmpty && (resolveHosts plan block.target []).toOption.any (!·.isEmpty)
  | _ => false

theorem exists_of_onDestination {plan : ExecutionPlan} {step : Step}
    (h : onDestination plan step = true) : ∃ block, step = .remote block ∧ plan.servers = [] ∧
      ∃ host hosts, resolveHosts plan block.target [] = .ok (host :: hosts) := by
  cases step with
  | remote block =>
    rw [onDestination, Bool.and_eq_true, List.isEmpty_iff] at h
    cases hhosts : resolveHosts plan block.target [] with
    | error e =>
      rw [hhosts] at h
      cases h.2
    | ok hosts =>
      rw [hhosts] at h
      cases hosts with
      | nil => cases h.2
      | cons host hosts => exact ⟨block, rfl, h.1, host, hosts, hhosts⟩
  | _ => cases h

theorem destination_is_no_server : ¬ ∀ input plan, parseScript input = .ok plan →
    ∀ block, .remote block ∈ plan.steps → ∀ hosts, resolveHosts plan block.target [] = .ok hosts →
      ∀ host ∈ hosts, plan.servers.lookup host.hostAlias = some host.spec := by
  intro hall
  have hbad : ((parseScript destinationScript).toOption.any fun plan =>
      plan.steps.any (onDestination plan)) = true := by
    decide +kernel
  cases h : parseScript destinationScript with
  | error e =>
    rw [h] at hbad
    cases hbad
  | ok plan =>
    rw [h] at hbad
    obtain ⟨step, hstep, hon⟩ := List.any_eq_true.mp hbad
    obtain ⟨block, rfl, hnone, host, hosts, hhosts⟩ := exists_of_onDestination hon
    have hserver := hall destinationScript plan h block hstep _ hhosts host List.mem_cons_self
    rw [hnone] at hserver
    cases hserver

end Shellflow
