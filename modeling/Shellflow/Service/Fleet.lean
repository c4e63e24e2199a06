import Mathlib.Data.Prod.Lex
import Shellflow.Dsl.Inherited
import Shellflow.Lib.StableSort
import Shellflow.Lib.WorkPool
import Shellflow.Service.Integrity
import Shellflow.Service.Status

/-! The fleet view: a pool of workers asks every host for its units, and one table reports on all. -/
namespace Shellflow.Fleet
open Integrity (ServiceError)
open Fallible StableSort WorkPool

def statusParallel : Nat := 16

structure UnitState where
  unit : String
  active : String
  sub : String
  load : String
deriving DecidableEq, Repr

def UnitState.empty : UnitState := ⟨"", "", "", ""⟩

inductive SshDest where
  | host (name : String)
  | spec (spec : SshSpec)
deriving DecidableEq, Repr

structure ServiceStatusArgs where
  all : Bool
  hosts : List String
  services : List String

/-- What a row of the table shows: the host, the service and the state of its unit. -/
structure Row where
  host : String
  service : String
  state : UnitState
deriving DecidableEq, Repr

inductive HostQuery where
  | rows (states : List Row)
  | failed (message : String)
deriving DecidableEq, Repr

section Answer

def UnitState.set (state : UnitState) (key value : String) : UnitState :=
  if key = "Id" then { state with unit := value }
  else if key = "ActiveState" then { state with active := value }
  else if key = "SubState" then { state with sub := value }
  else if key = "LoadState" then { state with load := value }
  else state

/-- One line of `systemctl show`; a blank line ends the block of a unit. -/
def readLine (read : List UnitState × UnitState) (line : String) : List UnitState × UnitState :=
  if Str.trim line = "" then
    if read.2.unit ≠ "" then (read.1 ++ [read.2], .empty) else read
  else
    match Str.splitOnce line "=" with
    | none => read
    | some (key, value) => (read.1, read.2.set (Str.trim key) value)

def parseUnits (text : String) : List UnitState :=
  let read := (Str.lines text).foldl readLine ([], .empty)
  if read.2.unit ≠ "" then read.1 ++ [read.2] else read.1

end Answer

section Query
variable (run : SshDest → List (String × String) → Except ServiceError (List (String × Section)))

def bodyOf (sections : List (String × Section)) (id : String) : String :=
  ((sections.lookup id).map Section.body).getD ""

def ServiceError.text : ServiceError → String
  | .transport report | .other report => report

/-- A host without units is asked for a sign of life. -/
def queryHost (name : String) (dest : SshDest) (units : List String) : HostQuery :=
  if units = [] then
    match run dest [("ping", "systemctl --version | head -1")] with
    | .ok sections => .rows [⟨name, "", ⟨"-", "reachable", bodyOf sections "ping", "-"⟩⟩]
    | .error err => .failed (name ++ ": " ++ ServiceError.text err)
  else
    match run dest [("units", "systemctl show " ++ Str.join " " (units.map shellQuoteSingle) ++
      " -p Id,ActiveState,SubState,LoadState")] with
    | .ok sections =>
      .rows ((parseUnits (bodyOf sections "units")).map fun state => ⟨name, state.unit, state⟩)
    | .error err => .failed (name ++ ": " ++ ServiceError.text err)

end Query

section Repository

/-- A playbook that does not parse declares no hosts. -/
def declaredServers (text : String) : List (String × SshSpec) :=
  match parseScript text with
  | .ok plan => plan.servers
  | .error _ => []

def remoteTargets (text : String) : List String :=
  match parseScript text with
  | .ok plan => plan.steps.filterMap Step.targetText?
  | .error _ => []

def isQuoteMark (c : Char) : Bool := c = '"' || c = '\''

def serviceNameChar (c : Char) : Bool := isAsciiAlphanumeric c || c = '-' || c = '_' || c = '.'

/-- The service that a line sets: `SVC=name`, or `SVC="${SVC:-name}"`. -/
def lineService (line : String) : Option String :=
  let trimmed := Str.trimStart line
  if Str.startsWith trimmed "SVC=" then
    let value := Str.trim (Str.trimStartPattern trimmed "SVC=")
    let name :=
      match Str.stripPrefix value "\"$\x7bSVC:-" with
      | some rest => Str.trim (((Str.splitChar rest '\x7d').head?).getD "")
      | none => String.ofList
        (((value.toList.dropWhile isQuoteMark).rdropWhile isQuoteMark).takeWhile serviceNameChar)
    if name = "" then none else some name
  else none

def extractService (text : String) : Option String := (Str.lines text).findSome? lineService

/-- The hosts of a set of playbooks; the last one that declares an alias decides. -/
def repoHosts (playbooks : List String) : SortedMap String SshSpec :=
  (playbooks.flatMap declaredServers).foldl (fun m server => m.insert server.1 server.2) .empty

/-- The services by the hosts that the playbooks declare or target. -/
def playbookFleet (playbooks : List String) : List (String × List String) :=
  let pairs := playbooks.flatMap fun text =>
    match extractService text with
    | none => []
    | some service =>
      ((declaredServers text).map Prod.fst ++ remoteTargets text).map fun target => (target, service)
  let fleet : SortedMap String (SortedMap String Unit) := pairs.foldl
    (fun m pair => m.insert pair.1 (((m.get? pair.1).getD .empty).insert pair.2 ())) .empty
  fleet.pairs.map fun entry => (entry.1, entry.2.keys)

/-- The hosts that are given, and with `--all` those that the playbooks declare. -/
def resolveHosts (args : ServiceStatusArgs) (playbooks : List String) : SortedMap String SshDest :=
  let given := args.hosts.foldl (fun m host => m.insert host (.host host)) .empty
  if args.all then
    (repoHosts playbooks).pairs.foldl
      (fun m server => if (m.get? server.1).isSome then m else m.insert server.1 (.spec server.2)) given
  else given

end Repository

/-- What a worker is given: a host, how it is reached, and the units to ask for. -/
structure Job where
  name : String
  dest : SshDest
  units : List String
deriving DecidableEq, Repr

/-- The repository: how its manifests are read, its services, and the playbooks that can be read. -/
structure Repo where
  toml : String → Except String TomlDoc
  services : ServiceTree
  playbooks : List String

def hostJob (args : ServiceStatusArgs) (repo : Repo) (host : String × SshDest) :
    Except ServiceError Job :=
  match unitsForHost repo.toml args.services repo.services (.ok (playbookFleet repo.playbooks)) host.1 with
  | .ok units => .ok ⟨host.1, host.2, units⟩
  | .error err => .error (.other err.message)

/-- The units of every host are resolved before the first query. -/
def plans (args : ServiceStatusArgs) (repo : Repo) : Except ServiceError (List Job) :=
  if (resolveHosts args repo.playbooks).pairs = [] then
    .error (.other ("service status: name a host with --host, or pass --all to use the hosts the " ++
      "repository declares"))
  else (resolveHosts args repo.playbooks).pairs.mapM (hostJob args repo)

def workers (jobs : List Job) : Nat := max (min statusParallel jobs.length) 1

section Table

def header : List String := ["HOST", "UNIT", "ACTIVE", "SUB", "LOAD"]

def Row.cells (row : Row) : List String :=
  [row.host, row.state.unit, row.state.active, row.state.sub, row.state.load]

/-- A column is as wide as its longest cell in bytes. -/
def widths (rows : List Row) : List Nat :=
  rows.foldl (fun widths row => List.zipWith (fun width cell => max width cell.utf8ByteSize) widths
    row.cells) (header.map String.utf8ByteSize)

def padded (cell : String) (width : Nat) : String :=
  cell ++ String.ofList (List.replicate (width - cell.length) ' ')

/-- The last cell of a line is not filled up. -/
def renderCells (widths : List Nat) (cells : List String) : String :=
  Str.join "  " (List.zipWith padded cells.dropLast widths ++ cells.getLast?.toList)

def printTable (rows : List Row) : List String :=
  if rows = [] then ["(no units to report)"]
  else renderCells (widths rows) header :: rows.map fun row => renderCells (widths rows) row.cells

end Table

section Report

def HostQuery.states : HostQuery → List Row
  | .rows states => states
  | .failed _ => []

def HostQuery.failure? : HostQuery → Option String
  | .rows _ => none
  | .failed message => some message

def Row.key (row : Row) : String ×ₗ String := toLex (row.host, row.state.unit)

def tableRows (results : List HostQuery) : List Row := sorted Row.key (results.flatMap HostQuery.states)

def failures (results : List HostQuery) : List String := sorted id (results.filterMap HostQuery.failure?)

/-- What is printed when the workers are done, and how the command ends. -/
def report (results : List HostQuery) : List String × Except ServiceError Unit :=
  ((failures results).map (fun failure => "[FAIL] " ++ failure) ++ printTable (tableRows results),
    if failures results = [] then .ok ()
    else .error (.other ("service status: " ++ toString (failures results).length ++
      " host(s) unreachable")))

end Report

def query (run : SshDest → List (String × String) → Except ServiceError (List (String × Section)))
    (job : Job) : HostQuery := queryHost run job.name job.dest job.units

section Order
variable {run : SshDest → List (String × String) → Except ServiceError (List (String × Section))}
variable {args : ServiceStatusArgs} {repo : Repo} {jobs done : List Job}

theorem hostJob_name {host : String × SshDest} {job : Job} (h : hostJob args repo host = .ok job) :
    job.name = host.1 := by
  rw [hostJob] at h
  split at h
  · rw [← Except.ok.inj h]
  · cases h

/-- Every host has one job, in the order of the names. -/
theorem plans_names (h : plans args repo = .ok jobs) :
    jobs.map Job.name = (resolveHosts args repo.playbooks).keys := by
  rw [plans] at h
  split at h
  · cases h
  · have hhosts := mapM_forall₂ h
    rw [SortedMap.keys, Assoc.keys]
    clear h
    generalize (resolveHosts args repo.playbooks).pairs = hosts at hhosts
    induction hhosts with
    | nil => rfl
    | cons hjob _ ih => rw [List.map_cons, List.map_cons, ih, hostJob_name hjob]

theorem plans_sorted (h : plans args repo = .ok jobs) : jobs.Pairwise fun a b => a.name < b.name := by
  rw [← List.pairwise_map (f := Job.name) (R := fun a b => a < b), plans_names h, SortedMap.keys,
    Assoc.keys, List.pairwise_map]
  exact (resolveHosts args repo.playbooks).sorted

theorem host_of_mem_states {job : Job} {row : Row} (h : row ∈ (query run job).states) :
    row.host = job.name := by
  revert h
  rw [query, queryHost]
  split
  · split
    · intro h
      rw [List.mem_singleton.mp h]
    · exact fun h => absurd h List.not_mem_nil
  · split
    · intro h
      obtain ⟨state, -, rfl⟩ := List.mem_map.mp h
      rfl
    · exact fun h => absurd h List.not_mem_nil

theorem lt_of_names {a b : Job} (h : a.name < b.name) {r r' : Row} (hr : r ∈ (query run a).states)
    (hr' : r' ∈ (query run b).states) : r.key < r'.key := by
  rw [Row.key, Row.key, Prod.Lex.toLex_lt_toLex, host_of_mem_states hr, host_of_mem_states hr']
  exact .inl h

/-- The table has a block for each host, whatever the order of the answers. -/
theorem tableRows_eq (hjobs : jobs.Pairwise fun a b => a.name < b.name) (h : done.Perm jobs) :
    tableRows (done.map (query run)) =
      jobs.flatMap fun job => sorted (fun row => row.state.unit) (query run job).states := by
  have hapart : jobs.Pairwise (Apart Row.key fun job => (query run job).states) :=
    hjobs.imp fun hlt r hr r' hr' => (lt_of_names hlt hr hr').ne
  rw [tableRows, List.flatMap_map, ← sorted_flatMap hapart h.symm,
    sorted_flatMap_of_le (hjobs.imp fun hlt r hr r' hr' => (lt_of_names hlt hr hr').le)]
  refine List.flatMap_congr fun job _ => sorted_congr fun r hr r' hr' => ?_
  rw [Row.key, Row.key, Prod.Lex.toLex_le_toLex, host_of_mem_states hr, host_of_mem_states hr']
  simp

theorem failures_eq (h : done.Perm jobs) :
    failures (done.map (query run)) = failures (jobs.map (query run)) :=
  sorted_eq_of_perm (fun _ _ h => h) ((h.map _).filterMap _)

theorem workers_pos : 0 < workers jobs := lt_max_of_lt_right Nat.one_pos

theorem workers_le : workers jobs ≤ statusParallel :=
  max_le (min_le_left _ _) (by decide)

/-- Every order in which the workers move: no more queries than workers run at once, no state is stuck
before the end, the end is reached after the same number of moves, and the report is then the one of a
single worker, with a block of rows for each host in the order of the names. -/
theorem status_any_order (h : plans args repo = .ok jobs) {acts : List Nat} {p : Pool Job HostQuery}
    (hrun : Runs.exec (step (query run)) (WorkPool.start (workers jobs) jobs) acts = some p) :
    p.held.length ≤ statusParallel ∧ (¬p.Finished → ∃ i, (step (query run) p i).isSome) ∧
      (p.Finished → acts.length = 2 * jobs.length + workers jobs ∧
        report p.results = report (jobs.map (query run)) ∧
        tableRows p.results =
          jobs.flatMap fun job => sorted (fun row => row.state.unit) (query run job).states) := by
  refine ⟨(held_run hrun).trans workers_le, exists_step, fun hend => ?_⟩
  obtain ⟨done, hresults, hperm⟩ := finished_results hrun workers_pos hend
  have hrows := @tableRows_eq run _ _ (plans_sorted h) hperm
  refine ⟨finished_moves hrun workers_pos hend, ?_, by rw [hresults, hrows]⟩
  rw [hresults, report, report, failures_eq hperm, hrows,
    tableRows_eq (plans_sorted h) (List.Perm.refl jobs)]

end Order

/-- The properties of one unit, as `systemctl show` prints them. -/
abbrev Block := List (String × String)

def Block.lines (block : Block) : List String := block.map fun p => p.1 ++ ("=" ++ p.2)

/-- The last value that a block has for a key. -/
def Block.value (block : Block) (key : String) : String :=
  (Assoc.last? key (block.map fun p => (Str.trim p.1, p.2))).getD ""

def Block.state (block : Block) : UnitState :=
  ⟨block.value "Id", block.value "ActiveState", block.value "SubState", block.value "LoadState"⟩

/-- The blocks with a blank line between them. -/
def shown : List Block → List String
  | [] => []
  | [block] => block.lines
  | block :: blocks => block.lines ++ "" :: shown blocks

/-- The block names its unit, and no key holds the mark between a key and its value. -/
def Block.Named (block : Block) : Prop :=
  block.value "Id" ≠ "" ∧ ∀ p ∈ block, '=' ∉ p.1.toList

section Show
variable {block : Block} {blocks : List Block} {read : List UnitState × UnitState}

theorem set_state (key value : String) : block.state.set (Str.trim key) value =
    Block.state (block ++ [(key, value)]) := by
  have hvalue : ∀ k, Block.value (block ++ [(key, value)]) k =
      if Str.trim key = k then value else block.value k := by
    intro k
    rw [Block.value, List.map_append, List.map_singleton, Assoc.last?_concat]
    split <;> rfl
  rw [UnitState.set, Block.state, Block.state, hvalue, hvalue, hvalue, hvalue]
  by_cases hid : Str.trim key = "Id"
  · simp [hid]
  · by_cases hactive : Str.trim key = "ActiveState"
    · simp [hactive]
    · by_cases hsub : Str.trim key = "SubState"
      · simp [hsub]
      · by_cases hload : Str.trim key = "LoadState" <;> simp [hid, hactive, hsub, hload]

/-- A line with a mark on it is not blank. -/
theorem trim_ne_empty {s : String} {c : Char} (hc : c ∈ s.toList) (hmark : Str.isWhitespace c = false) :
    Str.trim s ≠ "" := by
  intro h
  have hnil : (s.toList.dropWhile Str.isWhitespace).rdropWhile Str.isWhitespace = [] := by
    have hchars := congrArg String.toList h
    rwa [Str.trim, String.toList_ofList] at hchars
  have hmem : c ∈ s.toList.dropWhile Str.isWhitespace := by
    rw [← List.takeWhile_append_dropWhile (p := Str.isWhitespace) (l := s.toList), List.mem_append] at hc
    refine hc.resolve_left fun htake => ?_
    rw [List.mem_takeWhile_imp htake] at hmark
    cases hmark
  rw [List.rdropWhile_eq_nil_iff.mp hnil c hmem] at hmark
  cases hmark

theorem readLine_property {key value : String} (h : '=' ∉ key.toList) :
    readLine read (key ++ ("=" ++ value)) = (read.1, read.2.set (Str.trim key) value) := by
  have hblank : Str.trim (key ++ ("=" ++ value)) ≠ "" :=
    trim_ne_empty (c := '=') (by simp) (by decide)
  have hsplit : Str.splitOnce (key ++ ("=" ++ value)) "=" = some (key, value) := by
    have htext : (key ++ ("=" ++ value)).toList = key.toList ++ '=' :: value.toList := by simp
    rw [Str.splitOnce, htext]
    have heq : ("=" : String).toList = ['='] := rfl
    rw [heq, Str.splitOnceChars_of_notMem _ h]
    simp
  rw [readLine, if_neg hblank, hsplit]

/-- The lines of a block, behind those of it that were read before. -/
theorem foldl_block {out : List UnitState} (before : Block) (h : ∀ p ∈ block, '=' ∉ p.1.toList) :
    block.lines.foldl readLine (out, before.state) = (out, Block.state (before ++ block)) := by
  induction block generalizing before with
  | nil => rw [List.append_nil]; rfl
  | cons p block ih =>
    obtain ⟨hp, h⟩ := List.forall_mem_cons.mp h
    rw [Block.lines, List.map_cons, List.foldl_cons, readLine_property hp, set_state, ← Block.lines,
      ih _ h, List.append_assoc, List.singleton_append]

theorem state_nil : Block.state [] = .empty := rfl

theorem foldl_shown {out : List UnitState} (h : ∀ block ∈ blocks, block.Named) (hne : blocks ≠ []) :
    (shown blocks).foldl readLine (out, .empty) =
      (out ++ (blocks.dropLast.map Block.state), (blocks.getLast hne).state) := by
  induction blocks generalizing out with
  | nil => exact absurd rfl hne
  | cons block blocks ih =>
    obtain ⟨⟨hid, hkeys⟩, h⟩ := List.forall_mem_cons.mp h
    have hblock := @foldl_block block out [] hkeys
    rw [state_nil, List.nil_append] at hblock
    cases blocks with
    | nil =>
      rw [shown, hblock]
      simp
    | cons next blocks =>
      have hflush : readLine (out, block.state) "" = (out ++ [block.state], .empty) := by
        rw [readLine, if_pos (by decide)]
        exact if_pos hid
      have hshown : shown (block :: next :: blocks) = block.lines ++ "" :: shown (next :: blocks) := rfl
      rw [hshown, List.foldl_append, hblock, List.foldl_cons, hflush, ih h (List.cons_ne_nil _ _)]
      simp

/-- The units that are shown are read back. -/
theorem parseUnits_shown {text : String} (htext : Str.lines text = shown blocks)
    (h : ∀ block ∈ blocks, block.Named) : parseUnits text = blocks.map Block.state := by
  rw [parseUnits, htext]
  by_cases hne : blocks = []
  · subst hne
    rfl
  · rw [foldl_shown h hne, List.nil_append]
    have hid : (blocks.getLast hne).state.unit ≠ "" := (h _ (List.getLast_mem hne)).1
    dsimp only
    rw [if_pos hid]
    rw [← List.map_singleton, ← List.map_append, List.dropLast_append_getLast]

end Show

section Table
variable {run : SshDest → List (String × String) → Except ServiceError (List (String × Section))}

/-- The question for the states of some units. -/
def unitsCommand (units : List String) : String :=
  "systemctl show " ++ Str.join " " (units.map shellQuoteSingle) ++ " -p Id,ActiveState,SubState,LoadState"

/-- The host answers with a block for each of its units, in any order. -/
def Answers (run : SshDest → List (String × String) → Except ServiceError (List (String × Section)))
    (job : Job) (blocks : List Block) : Prop :=
  job.units ≠ [] ∧ (blocks.map fun block => block.state.unit).Perm job.units ∧
    (∀ block ∈ blocks, block.Named) ∧
      ∃ sections, run job.dest [("units", unitsCommand job.units)] = .ok sections ∧
        Str.lines (bodyOf sections "units") = shown blocks

def blockRow (job : Job) (block : Block) : Row := ⟨job.name, block.state.unit, block.state⟩

theorem query_answers {job : Job} {blocks : List Block} (h : Answers run job blocks) :
    query run job = .rows (blocks.map (blockRow job)) := by
  obtain ⟨hunits, -, hnamed, sections, hrun, hlines⟩ := h
  rw [unitsCommand] at hrun
  rw [query, queryHost, if_neg hunits, hrun]
  dsimp only
  rw [parseUnits_shown hlines hnamed, List.map_map]
  rfl

/-- Where every host answers, each of its units has one row, and no other has: the rows are those of
the units that were asked for, by host and then by unit, each with the state that its host reports. -/
theorem table_shows {args : ServiceStatusArgs} {repo : Repo} {jobs : List Job}
    (h : plans args repo = .ok jobs) {blocks : Job → List Block}
    (hanswers : ∀ job ∈ jobs, Answers run job (blocks job)) {acts : List Nat}
    {p : Pool Job HostQuery}
    (hrun : Runs.exec (step (query run)) (WorkPool.start (workers jobs) jobs) acts = some p)
    (hend : p.Finished) :
    (report p.results).2 = .ok () ∧
      (tableRows p.results).map (fun row => (row.host, row.state.unit)) =
        (jobs.flatMap fun job => (sorted id job.units).map fun unit => (job.name, unit)) ∧
      ∀ row ∈ tableRows p.results, ∃ job ∈ jobs, ∃ block ∈ blocks job, row = blockRow job block := by
  obtain ⟨done, hresults, hperm⟩ := finished_results hrun workers_pos hend
  have hquery : ∀ job ∈ jobs, query run job = .rows ((blocks job).map (blockRow job)) :=
    fun job hjob => query_answers (hanswers job hjob)
  have hstates : ∀ job ∈ jobs, (query run job).states = (blocks job).map (blockRow job) :=
    fun job hjob => by rw [hquery job hjob]; rfl
  have hrows := @tableRows_eq run _ _ (plans_sorted h) hperm
  rw [hresults]
  refine ⟨?_, ?_, fun row hrow => ?_⟩
  · have hnone : failures (done.map (query run)) = [] := by
      have hfilter : (jobs.map (query run)).filterMap HostQuery.failure? = [] := by
        refine List.filterMap_eq_nil_iff.mpr fun result hresult => ?_
        obtain ⟨job, hjob, rfl⟩ := List.mem_map.mp hresult
        rw [hquery job hjob]
        rfl
      rw [failures_eq hperm, failures, hfilter]
      rfl
    exact if_pos hnone
  · rw [hrows, List.map_flatMap]
    refine List.flatMap_congr fun job hjob => ?_
    have hunits : (sorted (fun row => row.state.unit) (query run job).states).map
        (fun row => row.state.unit) = sorted id job.units := by
      rw [map_key_sorted, hstates job hjob, List.map_map]
      exact sorted_eq_of_perm Function.injective_id (hanswers job hjob).2.1
    rw [← hunits, List.map_map]
    refine List.map_congr_left fun row hrow => ?_
    rw [host_of_mem_states ((sorted_perm _).mem_iff.mp hrow)]
    rfl
  · rw [hrows] at hrow
    obtain ⟨job, hjob, hrow⟩ := List.mem_flatMap.mp hrow
    have hmem := (sorted_perm _).mem_iff.mp hrow
    rw [hstates job hjob] at hmem
    obtain ⟨block, hblock, rfl⟩ := List.mem_map.mp hmem
    exact ⟨job, hjob, block, hblock, rfl⟩

end Table

section Two

/-- A fleet of two hosts with one service, named on the command line. -/
def twoArgs : ServiceStatusArgs := ⟨false, ["web", "db"], ["app"]⟩

def bareRepo : Repo := ⟨fun _ => .error "", none, []⟩

def appBlock : Block := [("Id", "app.service"), ("ActiveState", "active"), ("SubState", "running"),
  ("LoadState", "loaded")]

def appRun (_ : SshDest) (_ : List (String × String)) : Except ServiceError (List (String × Section)) :=
  .ok [("units", ⟨0, Str.join "\n" appBlock.lines⟩)]

def twoJobs : List Job :=
  [⟨"db", .host "db", ["app.service"]⟩, ⟨"web", .host "web", ["app.service"]⟩]

def appRow (name : String) : Row := ⟨name, "app.service", ⟨"app.service", "active", "running", "loaded"⟩⟩

/-- The host that is asked last answers first. -/
def swapped : Pool Job HostQuery :=
  ⟨[], [.gone, .gone], [.rows [appRow "web"], .rows [appRow "db"]]⟩

theorem plans_two : plans twoArgs bareRepo = .ok twoJobs := by rfl

theorem swapped_run : Runs.exec (step (query appRun)) (WorkPool.start (workers twoJobs) twoJobs)
    [0, 1, 1, 0, 0, 1] = some swapped := by decide +kernel

theorem status_any_order_swapped : report swapped.results = report (twoJobs.map (query appRun)) :=
  ((status_any_order plans_two swapped_run).2.2 (by decide)).2.1

theorem answers_two : ∀ job ∈ twoJobs, Answers appRun job [appBlock] := by
  intro job hjob
  have hlines : Str.lines (Str.join "\n" appBlock.lines) = shown [appBlock] := by decide +kernel
  have hnamed : appBlock.Named := ⟨by decide, by decide⟩
  rcases List.mem_cons.mp hjob with rfl | hjob
  · exact ⟨by decide, List.Perm.refl _, List.forall_mem_singleton.mpr hnamed, _, rfl, hlines⟩
  · rw [List.mem_singleton.mp hjob]
    exact ⟨by decide, List.Perm.refl _, List.forall_mem_singleton.mpr hnamed, _, rfl, hlines⟩

theorem table_shows_two : (tableRows swapped.results).map (fun row => (row.host, row.state.unit)) =
    [("db", "app.service"), ("web", "app.service")] :=
  (table_shows plans_two answers_two swapped_run (by decide)).2.1.trans (by decide)

end Two

end Shellflow.Fleet
