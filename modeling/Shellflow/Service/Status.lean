import Mathlib.Data.List.Sort
import Shellflow.Service.Manifest

/-! The units that the status of a host reports on. -/
namespace Shellflow
open Fallible

section Units
variable (toml : String → Except String TomlDoc)

/-- The unit file of a service directory: the one that bears its name, or the first one. -/
def directoryUnit (dir : ServiceDir) : Option String :=
  let files := (dir.files.getD []).map Prod.fst
  if dir.name ++ ".service" ∈ files then some (dir.name ++ ".service")
  else ((files.filter fun file => fileExtension file = some "service").mergeSort manifestLe).head?

def repoUnits (tree : ServiceTree) : List String :=
  ((tree.getD []).mergeSort fun a b => manifestLe a.name b.name).filterMap directoryUnit

/-- Which service each host is supposed to run; the playbooks say it when there is no manifest. -/
def repoFleet (tree : ServiceTree) (playbooks : Except ManifestError (List (String × List String))) :
    Except ManifestError (List (String × List String)) := do
  let manifests ← loadAll toml tree
  if manifests ≠ [] then serviceFleet (manifests.map Prod.snd) else playbooks

def unitsForHost (services : List String) (tree : ServiceTree)
    (playbooks : Except ManifestError (List (String × List String))) (host : String) :
    Except ManifestError (List String) :=
  if services ≠ [] then .ok (services.map fun s => s ++ ".service")
  else do
    let mapping ← repoFleet toml tree playbooks
    let units := ((mapping.lookup host).getD []).map fun s => s ++ ".service"
    .ok (if units ≠ [] then units else repoUnits tree)

end Units

/-- The units of a service name one host. -/
def HostsAgree (manifests : List ServiceManifest) : Prop :=
  ∀ m ∈ manifests, ∀ m' ∈ manifests, m.service = m'.service → m.host = m'.host

/-- The unit that a manifest is about. -/
def ServiceManifest.unitName (m : ServiceManifest) : String := m.unit ++ ".service"

section Fleet
variable {manifests done : List ServiceManifest} {hosts : List (String × String)}

/-- The map holds the host of every service that was read. -/
def Maps (hosts : List (String × String)) (done : List ServiceManifest) : Prop :=
  ∀ q, q ∈ hosts ↔ ∃ m ∈ done, q = (m.service, m.host)

theorem serviceHost_maps {m : ServiceManifest} (h : Maps hosts done) (hagree : HostsAgree (done ++ [m])) :
    ∃ hosts', serviceHost hosts m = .ok hosts' ∧ Maps hosts' (done ++ [m]) := by
  have hm : m ∈ done ++ [m] := List.mem_append_right _ (List.mem_singleton_self m)
  have hsame : ∀ q ∈ hosts, q.1 = m.service → q.2 = m.host := by
    intro q hq hservice
    obtain ⟨m', hm', rfl⟩ := (h q).mp hq
    exact hagree m' (List.mem_append_left _ hm') m hm hservice
  refine ⟨Assoc.put manifestLe (m.service, m.host) hosts, ?_, ?_⟩
  · rw [serviceHost]
    split
    · next found hfound =>
      obtain ⟨l, l', hsplit, -⟩ := List.lookup_eq_some_iff.mp hfound
      have hfoundHost : found = m.host := hsame (m.service, found) (by simp [hsplit]) rfl
      simp [hfoundHost]
    · rfl
  · intro q
    rw [Assoc.mem_put, h q]
    constructor
    · rintro (rfl | ⟨⟨m', hm', rfl⟩, -⟩)
      · exact ⟨m, hm, rfl⟩
      · exact ⟨m', List.mem_append_left _ hm', rfl⟩
    · rintro ⟨m', hm', rfl⟩
      by_cases hservice : m'.service = m.service
      · exact .inl (by rw [hservice, hagree m' hm' m hm hservice])
      · refine .inr ⟨⟨m', ?_, rfl⟩, hservice⟩
        rcases List.mem_append.mp hm' with hdone | hlast
        · exact hdone
        · exact absurd (congrArg ServiceManifest.service (List.mem_singleton.mp hlast)) hservice

theorem hosts_maps (hagree : HostsAgree (done ++ manifests)) (h : Maps hosts done) :
    ∃ hosts', manifests.foldlM serviceHost hosts = .ok hosts' ∧ Maps hosts' (done ++ manifests) := by
  induction manifests generalizing done hosts with
  | nil => exact ⟨hosts, rfl, by simpa using h⟩
  | cons m manifests ih =>
    rw [List.append_cons] at hagree
    obtain ⟨hosts', hm, h'⟩ := serviceHost_maps h fun a ha b hb =>
      hagree a (List.mem_append_left _ ha) b (List.mem_append_left _ hb)
    obtain ⟨hosts'', hrest, h''⟩ := ih hagree h'
    refine ⟨hosts'', ?_, by simpa using h''⟩
    rw [List.foldlM_cons, hm]
    exact hrest

/-- The services of a host are the ones whose manifests name it. -/
theorem mem_serviceFleet (hagree : HostsAgree manifests) (host : String) :
    ∃ fleet, serviceFleet manifests = .ok fleet ∧
      ∀ s, s ∈ (fleet.lookup host).getD [] ↔ ∃ m ∈ manifests, m.host = host ∧ m.service = s := by
  have hstart : Maps [] [] := by simp [Maps]
  obtain ⟨hosts, hfold, hmaps⟩ := hosts_maps (by simpa using hagree) hstart
  have hmem : ∀ q, q ∈ hosts ↔ ∃ m ∈ manifests, q = (m.service, m.host) := by
    simpa [Maps] using hmaps
  refine ⟨_, by rw [serviceFleet, hfold]; rfl, fun s => ?_⟩
  rw [Assoc.lookup_foldl_pushUnder]
  simp only [List.lookup_nil, Option.getD_none, List.nil_append, List.mem_map, List.mem_filter,
    decide_eq_true_eq, hmem]
  constructor
  · rintro ⟨q, ⟨⟨m, hm, rfl⟩, hhost⟩, rfl⟩
    exact ⟨m, hm, hhost, rfl⟩
  · rintro ⟨m, hm, hhost, rfl⟩
    exact ⟨(m.service, m.host), ⟨⟨m, hm, rfl⟩, hhost⟩, rfl⟩

end Fleet

/-- On the host, every service has a unit of its name and every unit the name of a service. -/
def UnitsNamedAsServices (manifests : List ServiceManifest) (host : String) : Prop :=
  (∀ m ∈ manifests, m.host = host → ∃ m' ∈ manifests, m'.host = host ∧ m'.unit = m.service) ∧
    ∀ m ∈ manifests, m.host = host → ∃ m' ∈ manifests, m'.host = host ∧ m'.service = m.unit

/-- The status of a host reports on the units that the manifests of the host declare. -/
def Covers (toml : String → Except String TomlDoc) (tree : ServiceTree)
    (playbooks : Except ManifestError (List (String × List String)))
    (manifests : List ServiceManifest) (host : String) : Prop :=
  ∃ units, unitsForHost toml [] tree playbooks host = .ok units ∧
    ∀ u, u ∈ units ↔ ∃ m ∈ manifests, m.host = host ∧ m.unitName = u

section Cover
variable {toml : String → Except String TomlDoc} {tree : ServiceTree}
  {playbooks : Except ManifestError (List (String × List String))}
  {manifests : List (String × ServiceManifest)} {host : String}

theorem unitsForHost_services
    (playbooks : Except ManifestError (List (String × List String))) (hload : loadAll toml tree = .ok manifests)
    (hagree : HostsAgree (manifests.map Prod.snd))
    (hhost : ∃ m ∈ manifests.map Prod.snd, m.host = host) :
    ∃ units, unitsForHost toml [] tree playbooks host = .ok units ∧
      ∀ u, u ∈ units ↔
        ∃ m ∈ manifests.map Prod.snd, m.host = host ∧ m.service ++ ".service" = u := by
  obtain ⟨fleet, hfleet, hmem⟩ := mem_serviceFleet hagree host
  obtain ⟨m, hm, hmhost⟩ := hhost
  have hne : manifests ≠ [] := by
    rintro rfl
    cases hm
  have hsome : m.service ∈ (fleet.lookup host).getD [] := (hmem m.service).mpr ⟨m, hm, hmhost, rfl⟩
  have hunits : ((fleet.lookup host).getD []).map (fun s => s ++ ".service") ≠ [] := by
    rw [Ne, List.map_eq_nil_iff]
    exact List.ne_nil_of_mem hsome
  refine ⟨((fleet.lookup host).getD []).map (fun s => s ++ ".service"), ?_, fun u => ?_⟩
  · have hrepo : repoFleet toml tree playbooks = .ok fleet := by
      rw [repoFleet, hload]
      exact (if_pos hne).trans hfleet
    rw [unitsForHost, if_neg (by simp), hrepo]
    exact congrArg Except.ok (if_pos hunits)
  · rw [List.mem_map]
    constructor
    · rintro ⟨s, hs, rfl⟩
      obtain ⟨m, hm, hmhost, rfl⟩ := (hmem s).mp hs
      exact ⟨m, hm, hmhost, rfl⟩
    · rintro ⟨m, hm, hmhost, rfl⟩
      exact ⟨m.service, (hmem m.service).mpr ⟨m, hm, hmhost, rfl⟩, rfl⟩

theorem covers_iff (hload : loadAll toml tree = .ok manifests)
    (hagree : HostsAgree (manifests.map Prod.snd))
    (hhost : ∃ m ∈ manifests.map Prod.snd, m.host = host) :
    Covers toml tree playbooks (manifests.map Prod.snd) host ↔
      UnitsNamedAsServices (manifests.map Prod.snd) host := by
  obtain ⟨units, hunits, hmem⟩ := unitsForHost_services playbooks hload hagree hhost
  have hinj : ∀ a b : String, a ++ ".service" = b ++ ".service" ↔ a = b := by
    intro a b
    rw [← String.toList_inj, String.toList_append, String.toList_append, List.append_cancel_right_eq,
      String.toList_inj]
  have hcovers : Covers toml tree playbooks (manifests.map Prod.snd) host ↔ ∀ u,
      (∃ m ∈ manifests.map Prod.snd, m.host = host ∧ m.service ++ ".service" = u) ↔
        ∃ m ∈ manifests.map Prod.snd, m.host = host ∧ m.unitName = u := by
    constructor
    · rintro ⟨units', hunits', hmem'⟩ u
      rw [hunits] at hunits'
      cases hunits'
      rw [← hmem, hmem']
    · exact fun h => ⟨units, hunits, fun u => (hmem u).trans (h u)⟩
  rw [hcovers]
  constructor
  · intro h
    constructor
    · intro m hm hmhost
      obtain ⟨m', hm', hhost', heq⟩ := (h _).mp ⟨m, hm, hmhost, rfl⟩
      exact ⟨m', hm', hhost', (hinj _ _).mp heq⟩
    · intro m hm hmhost
      obtain ⟨m', hm', hhost', heq⟩ := (h _).mpr ⟨m, hm, hmhost, rfl⟩
      exact ⟨m', hm', hhost', (hinj _ _).mp heq⟩
  · rintro ⟨hservices, hnames⟩ u
    constructor
    · rintro ⟨m, hm, hmhost, rfl⟩
      obtain ⟨m', hm', hhost', heq⟩ := hservices m hm hmhost
      exact ⟨m', hm', hhost', (hinj _ _).mpr heq⟩
    · rintro ⟨m, hm, hmhost, rfl⟩
      obtain ⟨m', hm', hhost', heq⟩ := hnames m hm hmhost
      exact ⟨m', hm', hhost', (hinj _ _).mpr heq⟩

end Cover

/-- Every manifest names one host. -/
def apiToml (_ : String) : Except String TomlDoc :=
  .ok [("host", .str "api"), ("unit", .str "unit.service")]

/-- A service with a unit of its name. -/
def plainTree : ServiceTree := some [⟨"web", some [("web.service.toml", some "")]⟩]

/-- A service with two units. -/
def twoUnitTree : ServiceTree :=
  some [⟨"trader", some [("feed.service.toml", some ""), ("orders.service.toml", some "")]⟩]

theorem covers_plain : Covers apiToml plainTree (.ok []) [⟨"web", "api", "web"⟩] "api" := by
  have hload : loadAll apiToml plainTree = .ok [("web/web", ⟨"web", "api", "web"⟩)] := by
    decide
  exact (covers_iff hload (by simp [HostsAgree]) (by simp)).mpr (by simp [UnitsNamedAsServices])

theorem status_misses_a_unit : ¬ ∀ (toml : String → Except String TomlDoc) (tree : ServiceTree)
    (playbooks : Except ManifestError (List (String × List String)))
    (manifests : List (String × ServiceManifest)) (host : String),
    loadAll toml tree = .ok manifests → HostsAgree (manifests.map Prod.snd) →
      (∃ m ∈ manifests.map Prod.snd, m.host = host) →
        Covers toml tree playbooks (manifests.map Prod.snd) host := by
  intro h
  have hload : loadAll apiToml twoUnitTree =
      .ok [("trader/feed", ⟨"trader", "api", "feed"⟩), ("trader/orders", ⟨"trader", "api", "orders"⟩)] := by
    decide
  have hcovers := h apiToml twoUnitTree (.ok []) _ "api" hload (by simp [HostsAgree]) (by simp)
  rw [covers_iff hload (by simp [HostsAgree]) (by simp)] at hcovers
  obtain ⟨hservices, -⟩ := hcovers
  simpa using hservices _ (List.mem_cons_self) rfl

end Shellflow
