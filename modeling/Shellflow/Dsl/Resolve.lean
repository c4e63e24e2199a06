import Shellflow.Dsl.Effects

/-! From a target to its hosts. A name stands for a group, or else for a server, or else for a
destination of its own; servers and groups are declared in any order. -/
namespace Shellflow
open Fallible State

structure ResolvedHost where
  hostAlias : String
  spec : SshSpec
deriving DecidableEq, Repr

/-- A group member with its destination. -/
def memberHost (plan : ExecutionPlan) (line : Nat) (group member : String) :
    Except ParseError ResolvedHost :=
  match plan.servers.lookup member with
  | some spec => .ok ⟨member, spec⟩
  | none => .error (.unknownGroupMember line group member)

/-- The destination of a name that is neither a group nor a server. -/
def rawHost (name : String) (line : Nat) : Except ParseError ResolvedHost := do
  let spec ← serverSpec name line
  .ok ⟨name, spec⟩

def targetHosts (plan : ExecutionPlan) (target : Target) : Except ParseError (List ResolvedHost) :=
  let name := targetText target.text
  if name = "" then .error (.emptyTarget target.text)
  else
    match plan.groups.lookup name with
    | some members => members.mapM (memberHost plan target.line name)
    | none =>
      match plan.servers.lookup name with
      | some spec => .ok [⟨name, spec⟩]
      | none => do
        let host ← rawHost name target.line
        .ok [host]

/-- The aliases a `--target` restriction allows. -/
def allowedAliases (plan : ExecutionPlan) (restrict : List String) : List String :=
  restrict.flatMap fun item => (plan.groups.lookup (targetText item)).getD [targetText item]

def resolveHosts (plan : ExecutionPlan) (target : Target) (restrict : List String) :
    Except ParseError (List ResolvedHost) := do
  let hosts ← targetHosts plan target
  if restrict.isEmpty then .ok hosts
  else
    let kept := hosts.filter fun host => host.hostAlias ∈ allowedAliases plan restrict
    if kept.isEmpty then .error (.emptyTarget target.text) else .ok kept

/-- What a `@server` or a `@group` line declares. -/
inductive Declaration
  | server (name : String) (spec : SshSpec)
  | group (name : String) (members : List String)

/-- The declaration a line makes, when it is accepted. -/
def declaredBy (st : State) (numbered : List Char × Nat) : Option Declaration :=
  if (st.heredocs.consumeBody (stripCr numbered.1)).2 then none
  else
    match directive (stripCr numbered.1) with
    | some ("server", payload) =>
      (parseServer st.plan payload numbered.2).toOption.map fun s => .server s.1 s.2
    | some ("group", payload) =>
      (parseGroup st.plan payload numbered.2).toOption.map fun g => .group g.1 g.2
    | _ => none

/-- The plan resolves the declared name to what was declared. -/
def ExecutionPlan.Honours (plan : ExecutionPlan) : Declaration → Prop
  | .server name spec => ∀ line, resolveHosts plan ⟨name, line⟩ [] = .ok [⟨name, spec⟩]
  | .group name members => ∀ line, ∃ hosts, resolveHosts plan ⟨name, line⟩ [] = .ok hosts ∧
      hosts.map (·.hostAlias) = members ∧
        ∀ host ∈ hosts, plan.servers.lookup host.hostAlias = some host.spec

/-- No alias names both a server and a group. -/
def ExecutionPlan.Separate (plan : ExecutionPlan) : Prop :=
  ∀ name, plan.servers.lookup name = none ∨ plan.groups.lookup name = none

/-- The server a line declares has no group of its name above it. -/
def NewServerName (st : State) (numbered : List Char × Nat) : Prop :=
  ∀ name spec, declaredBy st numbered = some (.server name spec) →
    st.plan.groups.lookup name = none

section Names

theorem hasKey_eq {α : Type} (l : List (String × α)) (name : String) :
    hasKey l name = (l.lookup name).isSome := by
  induction l with
  | nil => rfl
  | cons p l ih =>
    obtain ⟨k, v⟩ := p
    have hcons : hasKey ((k, v) :: l) name = (k == name || hasKey l name) := List.any_cons
    rw [hcons, List.lookup_cons, ih, BEq.comm]
    cases name == k with
    | true => rfl
    | false => rfl

theorem nameAndWord_valid {payload directive what : String} {line : Nat} {p : String × String}
    (h : nameAndWord payload directive what line = .ok p) : isValidAliasName p.1 = true := by
  obtain ⟨name, -, h⟩ := bind_eq_ok.mp h
  obtain ⟨_, hvalid, h⟩ := bind_eq_ok.mp h
  obtain ⟨word, -, h⟩ := bind_eq_ok.mp h
  obtain ⟨_, -, h⟩ := bind_eq_ok.mp h
  cases h
  exact ensure_ok hvalid

theorem lookup_eq_none_of_hasKey {α : Type} {l : List (String × α)} {name : String}
    (h : hasKey l name = false) : l.lookup name = none := by
  rw [hasKey_eq] at h
  exact Option.not_isSome_iff_eq_none.mp (by rw [h]; exact Bool.false_ne_true)

theorem parseServer_ok {plan : ExecutionPlan} {payload : String} {line : Nat}
    {s : String × SshSpec} (h : parseServer plan payload line = .ok s) :
    isValidAliasName s.1 = true ∧ plan.servers.lookup s.1 = none := by
  obtain ⟨⟨name, spec⟩, hword, h⟩ := bind_eq_ok.mp h
  cases hnew : hasKey plan.servers name with
  | true =>
    simp only [hnew, if_true] at h
    cases h
  | false =>
    simp only [hnew, Bool.false_eq_true, if_false] at h
    obtain ⟨parsed, -, h⟩ := bind_eq_ok.mp h
    cases h
    exact ⟨nameAndWord_valid hword, lookup_eq_none_of_hasKey hnew⟩

theorem parseGroup_ok {plan : ExecutionPlan} {payload : String} {line : Nat}
    {g : String × List String} (h : parseGroup plan payload line = .ok g) :
    isValidAliasName g.1 = true ∧ plan.servers.lookup g.1 = none ∧
      plan.groups.lookup g.1 = none := by
  obtain ⟨⟨name, members⟩, hword, h⟩ := bind_eq_ok.mp h
  obtain ⟨_, hserver, h⟩ := bind_eq_ok.mp h
  obtain ⟨_, hgroup, h⟩ := bind_eq_ok.mp h
  obtain ⟨_, -, h⟩ := bind_eq_ok.mp h
  obtain ⟨_, -, h⟩ := bind_eq_ok.mp h
  obtain ⟨parsed, -, h⟩ := bind_eq_ok.mp h
  cases h
  have hnoServer : hasKey plan.servers name = false := by simpa using ensure_ok hserver
  have hnoGroup : hasKey plan.groups name = false := by simpa using ensure_ok hgroup
  exact ⟨nameAndWord_valid hword, lookup_eq_none_of_hasKey hnoServer,
    lookup_eq_none_of_hasKey hnoGroup⟩

theorem aliasChar_of_mem {name : String} (h : isValidAliasName name = true) {c : Char}
    (hc : c ∈ name.toList) :
    (isAsciiAlphanumeric c || c == '_' || c == '-' || c == '.') = true := by
  simp only [isValidAliasName, Str.all, Bool.and_eq_true, List.all_eq_true] at h
  exact h.2 c hc

/-- An alias has nothing to trim. -/
theorem targetText_alias {name : String} (h : isValidAliasName name = true) :
    targetText name = name := by
  have hat : '@' ∉ name.toList := fun hc => absurd (aliasChar_of_mem h hc) (by decide)
  have hword : ∀ c ∈ name.toList, Str.isWhitespace c = false := by
    intro c hc
    have hchar := aliasChar_of_mem h hc
    rw [Bool.or_eq_true, Bool.or_eq_true] at hchar
    rcases hchar with (hvar | hdash) | hdot
    · exact isWhitespace_of_varChar hvar
    · rw [beq_iff_eq.mp hdash]
      decide
    · rw [beq_iff_eq.mp hdot]
      decide
  rw [targetText, Str.trimStartMatches_eq_self hat, Str.trim, Str.trimChars_eq_self hword,
    String.ofList_toList]

theorem ne_empty_of_alias {name : String} (h : isValidAliasName name = true) : name ≠ "" := by
  rintro rfl
  revert h
  decide

end Names

section Run

/-- What a step does to the names: it declares one, or leaves them all. -/
inductive NameEffect (st : State) (numbered : List Char × Nat) (st' : State) : Prop
  | server (name : String) (spec : SshSpec)
      (hdecl : declaredBy st numbered = some (.server name spec))
      (halias : isValidAliasName name = true) (hnew : st.plan.servers.lookup name = none)
      (hservers : ∀ k, st'.plan.servers.lookup k =
        if k = name then some spec else st.plan.servers.lookup k)
      (hgroups : st'.plan.groups = st.plan.groups)
  | group (name : String) (members : List String)
      (hdecl : declaredBy st numbered = some (.group name members))
      (halias : isValidAliasName name = true) (hserver : st.plan.servers.lookup name = none)
      (hnew : st.plan.groups.lookup name = none)
      (hservers : st'.plan.servers = st.plan.servers)
      (hgroups : ∀ k, st'.plan.groups.lookup k =
        if k = name then some members else st.plan.groups.lookup k)
  | keep (hdecl : declaredBy st numbered = none)
      (hservers : st'.plan.servers = st.plan.servers)
      (hgroups : st'.plan.groups = st.plan.groups)

theorem flush_names (st : State) :
    st.flush.plan.servers = st.plan.servers ∧ st.flush.plan.groups = st.plan.groups := by
  unfold flush
  split
  · exact ⟨rfl, rfl⟩
  · exact ⟨rfl, rfl⟩

theorem pushAssertion_names (st : State) (target : String) (line : Nat) (check : Assertion) :
    (st.pushAssertion target line check).plan.servers = st.plan.servers ∧
      (st.pushAssertion target line check).plan.groups = st.plan.groups := by
  unfold pushAssertion
  split
  · exact ⟨rfl, rfl⟩
  · exact ⟨rfl, rfl⟩

theorem pushCopy_names (st : State) (c : CopyDirective) (line : Nat) :
    (st.pushCopy c line).plan.servers = st.plan.servers ∧
      (st.pushCopy c line).plan.groups = st.plan.groups := by
  unfold pushCopy
  split
  · exact ⟨rfl, rfl⟩
  · exact ⟨rfl, rfl⟩

theorem beforeDirective_names (st : State) (keyword : String) :
    (st.beforeDirective keyword).plan.servers = st.plan.servers ∧
      (st.beforeDirective keyword).plan.groups = st.plan.groups := by
  unfold beforeDirective
  split
  · exact ⟨rfl, rfl⟩
  · exact flush_names st

theorem parseServer_congr {plan plan' : ExecutionPlan} (h : plan.servers = plan'.servers) :
    parseServer plan = parseServer plan' := by
  unfold parseServer
  rw [h]

theorem parseGroup_congr {plan plan' : ExecutionPlan} (hs : plan.servers = plan'.servers)
    (hg : plan.groups = plan'.groups) : parseGroup plan = parseGroup plan' := by
  unfold parseGroup
  rw [hs, hg]

/-- Every other directive leaves the names as they are. -/
theorem State.Effect.names {st st' : State} {keyword payload : String} {line : Nat}
    (h : Effect st payload line keyword st') (hserver : keyword ≠ "server")
    (hgroup : keyword ≠ "group") :
    st'.plan.servers = st.plan.servers ∧ st'.plan.groups = st.plan.groups := by
  cases h with
  | server hparse => exact absurd rfl hserver
  | group hparse => exact absurd rfl hgroup
  | assertion hkey target check => exact pushAssertion_names st target line check
  | copied c hparse => exact pushCopy_names st.localLines c line
  | declared | option | enterLocal | enterRemote | hostStep | exportNext | exportLast =>
    exact ⟨rfl, rfl⟩

theorem State.Effect.server_inv {st st' : State} {payload : String} {line : Nat}
    (h : Effect st payload line "server" st') :
    ∃ server, parseServer st.plan payload line = .ok server ∧
      st'.plan.servers = Assoc.insertSorted nameLe server st.plan.servers ∧
      st'.plan.groups = st.plan.groups := by
  generalize hkey : "server" = keyword at h
  cases h with
  | server hparse => exact ⟨_, hparse, rfl, rfl⟩
  | declared hmem | option hmem | hostStep hmem | assertion hmem =>
    exact absurd (hkey ▸ hmem) (by decide)
  | group | enterLocal | enterRemote | copied | exportNext | exportLast =>
    exact absurd hkey (by decide)

theorem State.Effect.group_inv {st st' : State} {payload : String} {line : Nat}
    (h : Effect st payload line "group" st') :
    ∃ group, parseGroup st.plan payload line = .ok group ∧
      st'.plan.servers = st.plan.servers ∧
      st'.plan.groups = Assoc.insertSorted nameLe group st.plan.groups := by
  generalize hkey : "group" = keyword at h
  cases h with
  | group hparse => exact ⟨_, hparse, rfl, rfl⟩
  | declared hmem | option hmem | hostStep hmem | assertion hmem =>
    exact absurd (hkey ▸ hmem) (by decide)
  | server | enterLocal | enterRemote | copied | exportNext | exportLast =>
    exact absurd hkey (by decide)

theorem nameEffect_scanLine {st st' : State} {numbered : List Char × Nat}
    (h : st.scanLine numbered = .ok st') : NameEffect st numbered st' := by
  cases effect_scanLine h with
  | body hbody => exact .keep (by rw [declaredBy, hbody, if_pos rfl]) rfl rfl
  | text hbody hdir => exact .keep (by simp [declaredBy, hbody, hdir]) rfl rfl
  | @directive keyword payload _ hbody hdir heffect =>
    obtain ⟨hservers, hgroups⟩ := beforeDirective_names st keyword
    by_cases hserver : keyword = "server"
    · subst hserver
      obtain ⟨server, hparse, hservers', hgroups'⟩ := heffect.server_inv
      rw [parseServer_congr hservers] at hparse
      obtain ⟨halias, hnew⟩ := parseServer_ok hparse
      refine .server server.1 server.2 ?_ halias hnew (fun k => ?_) (hgroups'.trans hgroups)
      · simp [declaredBy, hbody, hdir, hparse, Except.toOption]
      · rw [hservers', hservers, Assoc.lookup_insertSorted hnew]
    · by_cases hgroup : keyword = "group"
      · subst hgroup
        obtain ⟨group, hparse, hservers', hgroups'⟩ := heffect.group_inv
        rw [parseGroup_congr hservers hgroups] at hparse
        obtain ⟨halias, hnoServer, hnew⟩ := parseGroup_ok hparse
        refine .group group.1 group.2 ?_ halias hnoServer hnew (hservers'.trans hservers)
          fun k => ?_
        · simp [declaredBy, hbody, hdir, hparse, Except.toOption]
        · rw [hgroups', hgroups, Assoc.lookup_insertSorted hnew]
      · obtain ⟨hservers', hgroups'⟩ := heffect.names hserver hgroup
        refine .keep ?_ (hservers'.trans hservers) (hgroups'.trans hgroups)
        unfold declaredBy
        rw [hbody, hdir]
        simp [hserver, hgroup]

/-- A step keeps servers and groups apart exactly when a new server has a name of its own. -/
theorem separate_scanLine (st : State) (numbered : List Char × Nat) (st' : State)
    (h : st.scanLine numbered = .ok st') :
    st'.plan.Separate ↔ st.plan.Separate ∧ NewServerName st numbered := by
  cases nameEffect_scanLine h with
  | keep hdecl hservers hgroups =>
    simp [ExecutionPlan.Separate, NewServerName, hservers, hgroups, hdecl]
  | group name members hdecl halias hserver hnew hservers hgroups =>
    have hnewName : NewServerName st numbered := by
      intro k spec hk
      rw [hdecl] at hk
      cases hk
    refine ⟨fun hsep => ⟨fun k => ?_, hnewName⟩, fun hsep k => ?_⟩
    · have hk := hsep k
      rw [hservers, hgroups] at hk
      by_cases hname : k = name
      · exact .inl (hname ▸ hserver)
      · rwa [if_neg hname] at hk
    · rw [hservers, hgroups]
      by_cases hname : k = name
      · exact .inl (hname ▸ hserver)
      · rw [if_neg hname]
        exact hsep.1 k
  | server name spec hdecl halias hnew hservers hgroups =>
    have hname : NewServerName st numbered ↔ st.plan.groups.lookup name = none := by
      simp [NewServerName, hdecl]
    rw [hname]
    refine ⟨fun hsep => ⟨fun k => ?_, ?_⟩, fun hsep k => ?_⟩
    · have hk := hsep k
      rw [hservers, hgroups] at hk
      by_cases hkn : k = name
      · exact .inl (hkn ▸ hnew)
      · rwa [if_neg hkn] at hk
    · have hk := hsep name
      rw [hservers, if_pos rfl, hgroups] at hk
      exact hk.resolve_left (Option.some_ne_none spec)
    · rw [hservers, hgroups]
      by_cases hkn : k = name
      · exact .inr (hkn ▸ hsep.2)
      · rw [if_neg hkn]
        exact hsep.1 k

theorem lookup_servers_persist {name : String} {spec : SshSpec} (st : State)
    (numbered : List Char × Nat) (st' : State) (hst : st.plan.servers.lookup name = some spec)
    (h : st.scanLine numbered = .ok st') : st'.plan.servers.lookup name = some spec := by
  cases nameEffect_scanLine h with
  | keep hdecl hservers hgroups => rw [hservers, hst]
  | group other members hdecl halias hserver hnew hservers hgroups => rw [hservers, hst]
  | server other spec' hdecl halias hnew hservers hgroups =>
    have hne : name ≠ other := by
      rintro rfl
      rw [hnew] at hst
      cases hst
    rw [hservers, if_neg hne, hst]

theorem lookup_groups_persist {name : String} {members : List String} (st : State)
    (numbered : List Char × Nat) (st' : State) (hst : st.plan.groups.lookup name = some members)
    (h : st.scanLine numbered = .ok st') : st'.plan.groups.lookup name = some members := by
  cases nameEffect_scanLine h with
  | keep hdecl hservers hgroups => rw [hgroups, hst]
  | server other spec hdecl halias hnew hservers hgroups => rw [hgroups, hst]
  | group other members' hdecl halias hserver hnew hservers hgroups =>
    have hne : name ≠ other := by
      rintro rfl
      rw [hnew] at hst
      cases hst
    rw [hgroups, if_neg hne, hst]

theorem names_of_finish {st : State} {plan : ExecutionPlan} (h : st.finish = .ok plan) :
    plan.servers = st.plan.servers ∧ plan.groups = st.plan.groups ∧
      ∀ group ∈ plan.groups, ∀ member ∈ group.2, (plan.servers.lookup member).isSome := by
  unfold State.finish at h
  split at h
  · cases h
  · split at h
    · cases h
    next hmembers =>
      cases h
      refine ⟨(flush_names st).1, (flush_names st).2, fun group hgroup member hmember => ?_⟩
      have hnone := List.findSome?_eq_none_iff.mp hmembers group hgroup
      rw [Option.map_eq_none_iff, List.find?_eq_none] at hnone
      have hkey := hnone member hmember
      rw [hasKey_eq] at hkey
      simpa using hkey

end Run

section Hosts
variable {plan : ExecutionPlan}

theorem mem_of_lookup {α : Type} {l : List (String × α)} {k : String} {v : α}
    (h : l.lookup k = some v) : (k, v) ∈ l := by
  obtain ⟨before, after, hl, -⟩ := List.lookup_eq_some_iff.mp h
  rw [hl]
  exact List.mem_append_right before List.mem_cons_self

/-- The hosts of a list of declared servers. -/
theorem mapM_memberHost (line : Nat) (group : String) {members : List String}
    (h : ∀ member ∈ members, (plan.servers.lookup member).isSome) :
    ∃ hosts, members.mapM (memberHost plan line group) = .ok hosts ∧
      hosts.map (·.hostAlias) = members ∧
        ∀ host ∈ hosts, plan.servers.lookup host.hostAlias = some host.spec := by
  induction members with
  | nil => exact ⟨[], rfl, rfl, fun host hhost => absurd hhost List.not_mem_nil⟩
  | cons member members ih =>
    obtain ⟨spec, hspec⟩ := Option.isSome_iff_exists.mp (h member List.mem_cons_self)
    obtain ⟨hosts, hok, hnames, hspecs⟩ := ih fun m hm => h m (.tail _ hm)
    have hhost : memberHost plan line group member = .ok ⟨member, spec⟩ := by
      rw [memberHost, hspec]
    refine ⟨⟨member, spec⟩ :: hosts, ?_, by rw [List.map_cons, hnames], ?_⟩
    · rw [List.mapM_cons, hhost]
      change (members.mapM (memberHost plan line group) >>= fun tail =>
        pure (⟨member, spec⟩ :: tail)) = _
      rw [hok]
      rfl
    · exact List.forall_mem_cons.mpr ⟨hspec, hspecs⟩

theorem honours_server {name : String} {spec : SshSpec} (hname : isValidAliasName name = true)
    (hsep : plan.Separate) (hserver : plan.servers.lookup name = some spec) :
    plan.Honours (.server name spec) := by
  intro line
  have hgroup : plan.groups.lookup name = none := by
    refine (hsep name).resolve_left fun hnone => ?_
    rw [hserver] at hnone
    cases hnone
  have hhosts : targetHosts plan ⟨name, line⟩ = .ok [⟨name, spec⟩] := by
    simp only [targetHosts, targetText_alias hname, if_neg (ne_empty_of_alias hname), hgroup,
      hserver]
  rw [resolveHosts, hhosts]
  rfl

theorem honours_group {name : String} {members : List String}
    (hname : isValidAliasName name = true) (hgroup : plan.groups.lookup name = some members)
    (hmembers : ∀ group ∈ plan.groups, ∀ member ∈ group.2,
      (plan.servers.lookup member).isSome) : plan.Honours (.group name members) := by
  intro line
  obtain ⟨hosts, hok, hnames, hspecs⟩ := mapM_memberHost line name
    (hmembers _ (mem_of_lookup hgroup))
  refine ⟨hosts, ?_, hnames, hspecs⟩
  have hhosts : targetHosts plan ⟨name, line⟩ = .ok hosts := by
    simp only [targetHosts, targetText_alias hname, if_neg (ne_empty_of_alias hname), hgroup, hok]
  rw [resolveHosts, hhosts]
  rfl

/-- In a plan whose servers and groups are apart, each declaration is honoured. -/
theorem honours_of_run {st st' final : State} {numbered : List Char × Nat}
    {rest : List (List Char × Nat)} (hstep : st.scanLine numbered = .ok st')
    (hrest : rest.foldlM scanLine st' = .ok final) (hfinish : final.finish = .ok plan)
    (hsep : plan.Separate) (d : Declaration) (hd : declaredBy st numbered = some d) :
    plan.Honours d := by
  obtain ⟨hservers, hgroups, hmembers⟩ := names_of_finish hfinish
  cases nameEffect_scanLine hstep with
  | keep hdecl =>
    rw [hdecl] at hd
    cases hd
  | server name spec hdecl halias hnew hservers' hgroups' =>
    rw [hdecl] at hd
    cases hd
    have hfirst : st'.plan.servers.lookup name = some spec := by rw [hservers', if_pos rfl]
    refine honours_server halias hsep ?_
    rw [hservers]
    exact foldlM_invariant (fun t => t.plan.servers.lookup name = some spec)
      lookup_servers_persist hfirst hrest
  | group name members hdecl halias hnoServer hnew hservers' hgroups' =>
    rw [hdecl] at hd
    cases hd
    have hfirst : st'.plan.groups.lookup name = some members := by rw [hgroups', if_pos rfl]
    refine honours_group halias ?_ hmembers
    rw [hgroups]
    exact foldlM_invariant (fun t => t.plan.groups.lookup name = some members)
      (fun s i t hs h => lookup_groups_persist s i t hs h) hfirst hrest

end Hosts

/-- Servers and groups never share a name, and each declaration is what its name resolves to,
exactly when no server is declared under the name of a group above it. -/
theorem parseScript_names_iff (input : String) (plan : ExecutionPlan)
    (h : parseScript input = .ok plan) :
    (plan.Separate ∧ Along scanLine
        (fun st numbered => ∀ d, declaredBy st numbered = some d → plan.Honours d)
        .new (numberedLines input)) ↔
      Along scanLine NewServerName .new (numberedLines input) := by
  obtain ⟨final, hrun, hfinish⟩ := bind_eq_ok.mp h
  obtain ⟨hservers, hgroups, -⟩ := names_of_finish hfinish
  have hplan : plan.Separate ↔ final.plan.Separate := by
    simp only [ExecutionPlan.Separate, hservers, hgroups]
  have hnew : State.new.plan.Separate := fun name => .inl rfl
  have hsep : plan.Separate ↔ Along scanLine NewServerName .new (numberedLines input) := by
    rw [hplan, foldlM_iff_along separate_scanLine hrun]
    exact and_iff_right hnew
  refine ⟨fun hboth => hsep.mp hboth.1, fun halong => ⟨hsep.mpr halong, ?_⟩⟩
  exact along_of_run (fun s i u rest hstep hrest =>
    honours_of_run hstep hrest hfinish (hsep.mpr halong)) hrun

/-- A server, and a group of it under another name. -/
def apartScript : String := "# @server web h\n# @group all web\n# @remote all\necho hi\n"

/-- A group, and a server under its name. -/
def sharedScript : String := "# @server b h\n# @group web b\n# @server web h2\n"

theorem parseScript_names_iff_apart : ∃ plan, parseScript apartScript = .ok plan ∧
    (plan.Separate ∧ Along scanLine
        (fun st numbered => ∀ d, declaredBy st numbered = some d → plan.Honours d)
        .new (numberedLines apartScript) ↔
      Along scanLine NewServerName .new (numberedLines apartScript)) := by
  have hok : (parseScript apartScript).toOption.isSome = true := by decide +kernel
  cases h : parseScript apartScript with
  | error e =>
    rw [h] at hok
    cases hok
  | ok plan => exact ⟨plan, rfl, parseScript_names_iff apartScript plan h⟩

theorem parseScript_shares_a_name :
    ¬ ∀ input plan, parseScript input = .ok plan → plan.Separate := by
  intro hall
  have hbad : ((parseScript sharedScript).toOption.any fun plan =>
      (plan.servers.lookup "web").isSome && (plan.groups.lookup "web").isSome) = true := by
    decide +kernel
  cases h : parseScript sharedScript with
  | error e =>
    rw [h] at hbad
    cases hbad
  | ok plan =>
    rw [h] at hbad
    cases hall sharedScript plan h "web" with
    | inl hnone => simp [Except.toOption, hnone] at hbad
    | inr hnone => simp [Except.toOption, hnone] at hbad

end Shellflow
