import Shellflow.Dsl.Resolve
import Shellflow.Service.Staging

/-! The order of the backups and the installs of a playbook. The check puts the steps of all hosts
into one list, so it knows what comes first in the plan, not on which host. -/
namespace Shellflow.BackupOrder
open Staging

section Order
variable {α β : Type} {hit cover : α → Bool}

variable (hit cover) in
/-- A hit comes before the first cover, and there is one. -/
def HitFirst (l : List α) : Prop :=
  ∃ before e after, l = before ++ e :: after ∧ hit e = true ∧
    (∀ b ∈ before ++ [e], cover b = false) ∧ ∃ a ∈ after, cover a = true

theorem not_hitFirst_nil : ¬ HitFirst hit cover [] := by
  intro h
  obtain ⟨before, e, after, heq, -⟩ := h
  cases before with
  | nil => cases heq
  | cons b before => cases heq

theorem hitFirst_cons {a : α} {l : List α} : HitFirst hit cover (a :: l) ↔
    cover a = false ∧ (hit a = true ∧ (∃ b ∈ l, cover b = true) ∨ HitFirst hit cover l) := by
  constructor
  · intro h
    obtain ⟨before, e, after, heq, hhit, hbefore, hafter⟩ := h
    cases before with
    | nil =>
      cases heq
      exact ⟨hbefore a List.mem_cons_self, Or.inl ⟨hhit, hafter⟩⟩
    | cons b before =>
      cases heq
      refine ⟨hbefore a List.mem_cons_self, Or.inr ⟨before, e, after, rfl, hhit, ?_, hafter⟩⟩
      exact fun b hb => hbefore b (List.mem_cons_of_mem a hb)
  · intro h
    obtain ⟨hcover, ⟨hhit, hafter⟩ | ⟨before, e, after, rfl, hhit, hbefore, hafter⟩⟩ := h
    · refine ⟨[], a, l, rfl, hhit, ?_, hafter⟩
      simpa using hcover
    · refine ⟨a :: before, e, after, rfl, hhit, ?_, hafter⟩
      intro b hb
      cases hb with
      | head => exact hcover
      | tail _ hb => exact hbefore b hb

/-- What an element stands for decides. -/
theorem hitFirst_filterMap {f : β → Option α} {l : List β} :
    HitFirst hit cover (l.filterMap f) ↔
      HitFirst (fun b => (f b).any hit) (fun b => (f b).any cover) l := by
  induction l with
  | nil => exact iff_of_false not_hitFirst_nil not_hitFirst_nil
  | cons b l ih =>
    have hcovers : (∃ a ∈ l.filterMap f, cover a = true) ↔ ∃ b ∈ l, (f b).any cover = true := by
      simp only [List.mem_filterMap, Option.any_eq_true]
      tauto
    cases hf : f b with
    | none =>
      rw [List.filterMap_cons_none hf, hitFirst_cons, ih, hf]
      simp
    | some a => rw [List.filterMap_cons_some hf, hitFirst_cons, hitFirst_cons, ih, hf, hcovers]; rfl

theorem hitFirst_congr {hit' cover' : α → Bool} {l : List α}
    (hhit : ∀ a ∈ l, hit a = hit' a) (hcover : ∀ a ∈ l, cover a = cover' a) :
    HitFirst hit cover l ↔ HitFirst hit' cover' l := by
  induction l with
  | nil => exact iff_of_false not_hitFirst_nil not_hitFirst_nil
  | cons a l ih =>
    have hcovers : (∃ b ∈ l, cover b = true) ↔ ∃ b ∈ l, cover' b = true := by
      refine exists_congr fun b => and_congr_right fun hb => ?_
      rw [hcover b (List.mem_cons_of_mem a hb)]
    rw [hitFirst_cons, hitFirst_cons, hhit a List.mem_cons_self, hcover a List.mem_cons_self, hcovers,
      ih (fun b hb => hhit b (List.mem_cons_of_mem a hb))
        fun b hb => hcover b (List.mem_cons_of_mem a hb)]

/-- The hits whose index is below that of the first cover. -/
theorem hitFirst_iff_findIdx? {l : List α} : HitFirst hit cover l ↔
    ∃ index e, l[index]? = some e ∧ hit e = true ∧ (l.findIdx? cover).any (index < ·) = true := by
  induction l with
  | nil => simp [not_hitFirst_nil]
  | cons a l ih =>
    rw [hitFirst_cons, ih, List.findIdx?_cons]
    cases hcover : cover a with
    | true => simp
    | false =>
      have hlater : ∀ n, ((l.findIdx? cover).map (· + 1)).any (n + 1 < ·) =
          (l.findIdx? cover).any (n < ·) := by
        intro n
        cases l.findIdx? cover <;> simp
      have hcovers : ((l.findIdx? cover).map (· + 1)).any (0 < ·) = true ↔
          ∃ b ∈ l, cover b = true := by
        rw [← List.any_eq_true, ← List.findIdx?_isSome]
        cases l.findIdx? cover <;> simp
      simp only [Bool.false_eq_true, if_false, true_and]
      constructor
      · intro h
        rcases h with ⟨hhit, hafter⟩ | ⟨index, e, hget, hhit, hindex⟩
        · exact ⟨0, a, rfl, hhit, hcovers.mpr hafter⟩
        · exact ⟨index + 1, e, hget, hhit, by rw [hlater]; exact hindex⟩
      · intro h
        obtain ⟨index, e, hget, hhit, hindex⟩ := h
        cases index with
        | zero =>
          cases hget
          exact Or.inl ⟨hhit, hcovers.mp hindex⟩
        | succ index =>
          rw [hlater] at hindex
          exact Or.inr ⟨index, e, hget, hhit, hindex⟩

end Order

/-- A step of the plan that touches a target. -/
inductive PlanEvent where
  | backup (paths : List String)
  | install (dst : String)
deriving DecidableEq, Repr

namespace PlanEvent

def covers (path : String) : PlanEvent → Bool
  | .backup paths => decide (path ∈ paths)
  | .install _ => false

def writes (path : String) : PlanEvent → Bool
  | .backup _ => false
  | .install dst => dst == path

end PlanEvent

structure Problem where
  path : String
deriving DecidableEq, Repr

def Problem.message (problem : Problem) : String :=
  s!"the backup of {problem.path} runs after the step that installs the same path: " ++
    "move the `# @backup` line above the `# @install` line, so the snapshot captures the previous file"

def stepEvent (vars : Vars) : Step → Option PlanEvent
  | .install install => some (.install (resolve vars install.dst))
  | .backup backup => some (.backup (backup.paths.map (resolve vars)))
  | _ => none

/-- The backups and the installs in plan order. -/
def ordered (vars : Vars) (plan : ExecutionPlan) : List PlanEvent :=
  plan.steps.filterMap (stepEvent vars)

/-- The problem of an event, by the earliest backup that covers its path. -/
def orderProblem (events : List PlanEvent) (index : Nat) : PlanEvent → Option Problem
  | .install dst =>
    if (events.findIdx? (PlanEvent.covers dst)).any (index < ·) then some ⟨dst⟩ else none
  | .backup _ => none

def checkBackupOrder (events : List PlanEvent) : List Problem :=
  events.zipIdx.filterMap fun event => orderProblem events event.2 event.1

/-- What the check says of the order in a playbook. -/
def report (text : String) : Option (List Problem) :=
  match parseScript text with
  | .error _ => none
  | .ok plan => some (checkBackupOrder (ordered (variablesOf text) plan))

/-- The first backup that covers the path comes after an install of it. -/
def Late (path : String) (events : List PlanEvent) : Prop :=
  HitFirst (PlanEvent.writes path) (PlanEvent.covers path) events

section Hosts
variable (plan : ExecutionPlan) (vars : Vars)

def stepTarget : Step → Option Target
  | .install install => some install.target
  | .backup backup => some backup.target
  | _ => none

/-- The hosts of a backup or an install. -/
def hostsOf (step : Step) : List ResolvedHost :=
  ((stepTarget step).bind fun target => (resolveHosts plan target []).toOption).getD []

/-- The backups and the installs that one host sees. -/
def orderedOn (host : ResolvedHost) : List PlanEvent :=
  (plan.steps.filter fun step => host ∈ hostsOf plan step).filterMap (stepEvent vars)

def Touches (path : String) (step : Step) : Prop :=
  ∃ event, stepEvent vars step = some event ∧ (event.writes path = true ∨ event.covers path = true)

/-- All steps that touch the path have the same hosts, and some. -/
def SameHosts (path : String) : Prop :=
  ∃ hosts, hosts ≠ [] ∧ ∀ step ∈ plan.steps, Touches vars path step →
    ∀ host, host ∈ hostsOf plan step ↔ host ∈ hosts

end Hosts

/-- The check tells of the paths whose first backup is late. -/
theorem path_of_problem {events : List PlanEvent} {path : String} :
    path ∈ (checkBackupOrder events).map Problem.path ↔ Late path events := by
  rw [Late, hitFirst_iff_findIdx?]
  constructor
  · intro h
    obtain ⟨problem, hproblem, rfl⟩ := List.mem_map.mp h
    obtain ⟨⟨event, index⟩, hevent, horder⟩ := List.mem_filterMap.mp hproblem
    have hget := List.mem_zipIdx_iff_getElem?.mp hevent
    cases event with
    | backup paths => cases horder
    | install dst =>
      rw [orderProblem] at horder
      split at horder
      · next hlate =>
        cases horder
        exact ⟨index, .install dst, hget, by simp [PlanEvent.writes], hlate⟩
      · cases horder
  · intro h
    obtain ⟨index, event, hget, hwrites, hlate⟩ := h
    cases event with
    | backup paths => cases hwrites
    | install dst =>
      obtain rfl : dst = path := by simpa [PlanEvent.writes] using hwrites
      refine List.mem_map.mpr ⟨⟨dst⟩, List.mem_filterMap.mpr ⟨(.install dst, index),
        List.mem_zipIdx_iff_getElem?.mpr hget, ?_⟩, rfl⟩
      rw [orderProblem, if_pos hlate]

section Hosts
variable {plan : ExecutionPlan} {vars : Vars} {path : String} {host : ResolvedHost}

theorem exists_of_mem_orderedOn {event : PlanEvent} (h : event ∈ orderedOn plan vars host) :
    ∃ step ∈ plan.steps, host ∈ hostsOf plan step ∧ stepEvent vars step = some event := by
  obtain ⟨step, hstep, hevent⟩ := List.mem_filterMap.mp h
  obtain ⟨hstep, hhost⟩ := List.mem_filter.mp hstep
  exact ⟨step, hstep, of_decide_eq_true hhost, hevent⟩

/-- A host that has every step that touches the path sees the order of the plan. -/
theorem late_orderedOn
    (hall : ∀ step ∈ plan.steps, Touches vars path step → host ∈ hostsOf plan step) :
    Late path (orderedOn plan vars host) ↔ Late path (ordered vars plan) := by
  have hsame : ∀ test : PlanEvent → Bool,
      (∀ event, test event = true → event.writes path = true ∨ event.covers path = true) →
        ∀ step ∈ plan.steps, (if decide (host ∈ hostsOf plan step) = true then stepEvent vars step
          else none).any test = (stepEvent vars step).any test := by
    intro test htest step hstep
    by_cases hhost : host ∈ hostsOf plan step
    · rw [if_pos (decide_eq_true hhost)]
    · rw [if_neg (by simpa using hhost)]
      cases hevent : stepEvent vars step with
      | none => rfl
      | some event =>
        refine (Bool.eq_false_iff.mpr fun hany => hhost ?_).symm
        exact hall step hstep ⟨event, hevent, htest event hany⟩
  rw [Late, Late, orderedOn, ordered, List.filterMap_filter, hitFirst_filterMap, hitFirst_filterMap]
  exact hitFirst_congr (hsame _ fun event h => Or.inl h) (hsame _ fun event h => Or.inr h)

/-- A host with none of the steps that touch the path sees no late backup. -/
theorem not_late_orderedOn
    (hnone : ∀ step ∈ plan.steps, Touches vars path step → host ∉ hostsOf plan step) :
    ¬ Late path (orderedOn plan vars host) := by
  intro hlate
  obtain ⟨before, event, after, heq, hwrites, -⟩ := hlate
  have hmem : event ∈ orderedOn plan vars host := by
    rw [heq]
    exact List.mem_append_right _ List.mem_cons_self
  obtain ⟨step, hstep, hhost, hevent⟩ := exists_of_mem_orderedOn hmem
  exact hnone step hstep ⟨event, hevent, Or.inl hwrites⟩ hhost

/-- Where the steps that touch the path share their hosts, each of these decides. -/
theorem SameHosts.late_iff (h : SameHosts plan vars path) :
    Late path (ordered vars plan) ↔ ∃ host, Late path (orderedOn plan vars host) := by
  obtain ⟨hosts, hne, hsame⟩ := h
  constructor
  · intro hlate
    obtain ⟨host, hhost⟩ := List.exists_mem_of_ne_nil hosts hne
    exact ⟨host, (late_orderedOn fun step hstep htouches =>
      (hsame step hstep htouches host).mpr hhost).mpr hlate⟩
  · intro h
    obtain ⟨host, hlate⟩ := h
    by_cases hhost : host ∈ hosts
    · exact (late_orderedOn fun step hstep htouches =>
        (hsame step hstep htouches host).mpr hhost).mp hlate
    · refine absurd hlate (not_late_orderedOn fun step hstep htouches hmem => hhost ?_)
      exact (hsame step hstep htouches host).mp hmem

end Hosts

/-- The check goes by the order of the plan; where the hosts are the same, by that of each host. -/
theorem report_exact (text : String) (plan : ExecutionPlan) (hplan : parseScript text = .ok plan) :
    ∃ problems, report text = some problems ∧ ∀ path,
      (path ∈ problems.map Problem.path ↔ Late path (ordered (variablesOf text) plan)) ∧
      (SameHosts plan (variablesOf text) path →
        (path ∈ problems.map Problem.path ↔
          ∃ host, Late path (orderedOn plan (variablesOf text) host))) := by
  refine ⟨checkBackupOrder (ordered (variablesOf text) plan), by rw [report, hplan], fun path => ?_⟩
  refine ⟨path_of_problem, fun hsame => ?_⟩
  rw [path_of_problem, hsame.late_iff]

/-- The install is on one host and the backup on the other. -/
def twoHosts : String :=
  "# @server a h1\n# @server b h2\n# @install $WORKDIR/x -> /etc/x @a\n# @backup /etc/x @b\n"

/-- Every backup and every install of the plan has hosts. -/
def Resolved (plan : ExecutionPlan) : Prop :=
  ∀ step ∈ plan.steps, ∀ target, stepTarget step = some target →
    ∃ hosts, resolveHosts plan target [] = .ok hosts

/-- An event and the names of its hosts. -/
def eventNames (plan : ExecutionPlan) (vars : Vars) (step : Step) :
    Option PlanEvent × Option (Option (List String)) :=
  (stepEvent vars step, (stepTarget step).map fun target =>
    (resolveHosts plan target []).toOption.map fun hosts => hosts.map (·.hostAlias))

theorem twoHosts_parsed : ∃ plan, parseScript twoHosts = .ok plan ∧
    plan.steps.map (eventNames plan []) =
      [(some (.install "/etc/x"), some (some ["a"])),
        (some (.backup ["/etc/x"]), some (some ["b"]))] := by
  have hparsed : (parseScript twoHosts).toOption.map (fun plan =>
      plan.steps.map (eventNames plan [])) =
        some [(some (.install "/etc/x"), some (some ["a"])),
          (some (.backup ["/etc/x"]), some (some ["b"]))] := by
    decide +kernel
  cases hparse : parseScript twoHosts with
  | error e =>
    rw [hparse] at hparsed
    cases hparsed
  | ok plan =>
    rw [hparse] at hparsed
    exact ⟨plan, rfl, Option.some.inj hparsed⟩

theorem report_exact_twoHosts : ∃ plan, parseScript twoHosts = .ok plan ∧
    ∃ problems, report twoHosts = some problems ∧ ∀ path,
      (path ∈ problems.map Problem.path ↔ Late path (ordered (variablesOf twoHosts) plan)) ∧
      (SameHosts plan (variablesOf twoHosts) path →
        (path ∈ problems.map Problem.path ↔
          ∃ host, Late path (orderedOn plan (variablesOf twoHosts) host))) := by
  obtain ⟨plan, hparse, -⟩ := twoHosts_parsed
  exact ⟨plan, hparse, report_exact twoHosts plan hparse⟩

theorem of_eventNames {plan : ExecutionPlan} {vars : Vars} {step : Step} {event : PlanEvent}
    {names : List String} (h : eventNames plan vars step = (some event, some (some names))) :
    stepEvent vars step = some event ∧ ∃ target hosts, stepTarget step = some target ∧
      resolveHosts plan target [] = .ok hosts ∧ hostsOf plan step = hosts ∧
        hosts.map (·.hostAlias) = names := by
  obtain ⟨hevent, hnames⟩ := Prod.mk.inj h
  refine ⟨hevent, ?_⟩
  obtain ⟨target, htarget, hhosts⟩ := Option.map_eq_some_iff.mp hnames
  obtain ⟨hosts, hresolve, hmap⟩ := Option.map_eq_some_iff.mp hhosts
  cases hok : resolveHosts plan target [] with
  | error e =>
    rw [hok] at hresolve
    cases hresolve
  | ok found =>
    rw [hok] at hresolve
    cases hresolve
    refine ⟨target, hosts, htarget, hok, ?_, hmap⟩
    rw [hostsOf, htarget, Option.bind_some, hok]
    rfl

/-- No host has both steps, and the check tells of the path. -/
theorem report_without_a_common_host : ¬ ∀ text plan, parseScript text = .ok plan → Resolved plan →
    ∀ problems, report text = some problems → ∀ path, path ∈ problems.map Problem.path ↔
      ∃ host, Late path (orderedOn plan (variablesOf text) host) := by
  intro hall
  have hvars : variablesOf twoHosts = [] := by decide +kernel
  obtain ⟨plan, hparse, hevents⟩ := twoHosts_parsed
  obtain ⟨install, rest, hsteps, hinstall, hrest⟩ := List.map_eq_cons_iff.mp hevents
  obtain ⟨backup, rest, rfl, hbackup, hnil⟩ := List.map_eq_cons_iff.mp hrest
  rw [List.map_eq_nil_iff.mp hnil] at hsteps
  obtain ⟨hinstallEvent, target, hosts, htarget, hhosts, hon, hnames⟩ := of_eventNames hinstall
  obtain ⟨hbackupEvent, target', hosts', htarget', hhosts', hon', hnames'⟩ := of_eventNames hbackup
  have hresolved : Resolved plan := by
    intro step hstep t ht
    rw [hsteps] at hstep
    rcases List.mem_pair.mp hstep with rfl | rfl
    · rw [htarget] at ht
      cases ht
      exact ⟨hosts, hhosts⟩
    · rw [htarget'] at ht
      cases ht
      exact ⟨hosts', hhosts'⟩
  have hordered : ordered (variablesOf twoHosts) plan =
      [.install "/etc/x", .backup ["/etc/x"]] := by
    rw [hvars, ordered, hsteps, List.filterMap_cons_some hinstallEvent,
      List.filterMap_cons_some hbackupEvent, List.filterMap_nil]
  have hreport : report twoHosts = some [⟨"/etc/x"⟩] := by
    rw [report, hparse]
    dsimp only
    rw [hordered]
    decide +kernel
  obtain ⟨host, before, event, after, heq, hwrites, -, covering, hafter, hcovers⟩ :=
    (hall twoHosts plan hparse hresolved _ hreport "/etc/x").mp (List.mem_singleton_self _)
  rw [hvars] at heq
  have hmem : event ∈ orderedOn plan [] host ∧ covering ∈ orderedOn plan [] host := by
    rw [heq]
    simp [hafter]
  have hname : host.hostAlias = "a" := by
    obtain ⟨step, hstep, hhost, hevent⟩ := exists_of_mem_orderedOn hmem.1
    rw [hsteps] at hstep
    rcases List.mem_pair.mp hstep with rfl | rfl
    · rw [hon] at hhost
      simpa [hnames] using List.mem_map_of_mem (f := (·.hostAlias)) hhost
    · rw [hbackupEvent] at hevent
      cases hevent
      cases hwrites
  have hname' : host.hostAlias = "b" := by
    obtain ⟨step, hstep, hhost, hevent⟩ := exists_of_mem_orderedOn hmem.2
    rw [hsteps] at hstep
    rcases List.mem_pair.mp hstep with rfl | rfl
    · rw [hinstallEvent] at hevent
      cases hevent
      cases hcovers
    · rw [hon'] at hhost
      simpa [hnames'] using List.mem_map_of_mem (f := (·.hostAlias)) hhost
  exact absurd (hname.symm.trans hname') (by decide)

end Shellflow.BackupOrder
