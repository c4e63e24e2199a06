import Shellflow.Lib.Overlay
import Shellflow.Dsl.Parser
import Shellflow.Service.Manifest
import Shellflow.Executor.Placement

/-! The staging check of a playbook: the files its copies put into the staging directory, and the
install steps that read them from there. -/
namespace Shellflow.Staging
open Disk

/-- A repository, by the components of a path from its root; `names` lists a directory. -/
structure Repo where
  found : Tree
  names : Path → List String
  elsewhere : String → Bool
  closed : found.Closed
  mem_names : ∀ p name, name ∈ names p ↔ IsPart name ∧ name ≠ ".." ∧ found (p ++ [name]) ≠ none

abbrev Vars := List (String × String)

def trimMatches (s : String) (c : Char) : String :=
  String.ofList ((s.toList.dropWhile (· == c)).rdropWhile (· == c))

/-- The path inside the staging directory. -/
def stripWorkdir (path : String) : Option String :=
  (Str.stripPrefix path "$\x7bWORKDIR\x7d/").or (Str.stripPrefix path "$WORKDIR/")

def dstName (dst : String) : String := trimMatches (baseName ((stripWorkdir dst).getD dst)) '/'

def dstDir (dst : String) : String :=
  ((Str.rsplitOnceChar ((stripWorkdir dst).getD dst) '/').map Prod.fst).getD ""

/-- The variable that a line of the playbook assigns, where its value is plain. -/
def assigned (line : String) : Option (String × String) :=
  match Str.splitOnce line "=" with
  | none => none
  | some (name, value) =>
    let name := Str.trim name
    if name = "" || !Str.all name (fun c => isAsciiAlphanumeric c || c == '_') then none
    else
      let value := trimMatches (trimMatches (Str.trim value) '"') '\''
      if value = "" || Str.contains value " " || Str.contains value "$" then none
      else some (name, value)

/-- The first assignment wins. -/
def addVariable (vars : Vars) (p : String × String) : Vars :=
  if (vars.lookup p.1).isSome then vars else Assoc.insertSorted manifestLe p vars

def variablesOf (text : String) : Vars := ((Str.lines text).filterMap assigned).foldl addVariable []

/-- The path with each variable in place of its name, in braces or bare. -/
def resolve (vars : Vars) (path : String) : String :=
  vars.foldl (fun out v =>
    Str.replace (Str.replace out ("$\x7b" ++ v.1 ++ "\x7d") v.2) ("$" ++ v.1) v.2) path

/-- A name at its place among sorted names, once. -/
def insertName (name : String) : List String → List String
  | [] => [name]
  | first :: rest =>
    if first = name then first :: rest
    else if manifestLe name first then name :: first :: rest
    else first :: insertName name rest

/-- The staging directory that a path names, and the file in it. -/
def splitDir (path : String) : String × String := (Str.splitOnce path "/").getD ("", path)

structure PlaybookFacts where
  serviceDirs : List String
  installs : List (String × String)
  staged : List (String × List String)
  opaqueDirs : List String
  vars : Vars
  copySources : List String

/-- What the check takes the source of a copy for. -/
inductive Reading
  | directory (dir : String)
  | file
  | foreign
deriving DecidableEq, Repr

inductive Finding
  | unstaged (src dir : String)
  | unlisted (src dir : String) (files : List String)
  | absent (src : String)
deriving DecidableEq, Repr

structure Problem where
  location : String
  message : String
deriving DecidableEq, Repr

def Finding.message : Finding → String
  | .unstaged src dir =>
    s!"`@install {src}` reads from {dir}, but no copy step stages that directory"
  | .unlisted src dir files =>
    s!"`@install {src}` names a file the playbook never stages in {dir} (the copy steps stage: " ++
      Str.join ", " files ++ ")"
  | .absent src => s!"`@install {src}` names a file the repository does not have"

namespace Repo
variable (repo : Repo)

def isDir (p : Path) : Bool := repo.found p == some .dir

/-- Whether a path exists, from `base` on; behind a trailing slash only a directory does. -/
def existsAt (base : Path) (path : String) : Bool :=
  if Str.startsWith path "/" then repo.elsewhere path
  else
    match repo.found (base ++ pathParts path) with
    | some node => node == .dir || !Placement.isContents path
    | none => false

def servicePath (dir : String) : Path := "services" :: pathParts dir

/-- The entries of a directory, and those of a directory in it. -/
def stagedFiles (p : Path) : List String :=
  (repo.names p).foldl (fun files entry =>
    (if repo.isDir (p ++ [entry]) then repo.names (p ++ [entry]) else []).foldl
      (fun files file => insertName (entry ++ "/" ++ file) files) (insertName entry files)) []

def reading (vars : Vars) (entry : CopyEntry) : Reading :=
  match Str.stripPrefix (resolve vars entry.src) "services/" with
  | some rest =>
    if repo.isDir (servicePath (trimMatches rest '/')) then .directory (trimMatches rest '/')
    else .file
  | none => .foreign

def copyFacts (facts : PlaybookFacts) (entry : CopyEntry) : PlaybookFacts :=
  let facts := { facts with copySources := facts.copySources ++ [resolve facts.vars entry.src] }
  match repo.reading facts.vars entry with
  | .directory dir =>
    { facts with
      serviceDirs := facts.serviceDirs ++ [dir]
      staged := Assoc.put manifestLe (dstName entry.dst, repo.stagedFiles (servicePath dir))
        facts.staged }
  | .file =>
    let name := baseName entry.dst
    if name = "" then facts
    else
      let names := (facts.staged.lookup (dstDir entry.dst)).getD []
      { facts with
        staged := Assoc.put manifestLe (dstDir entry.dst, insertName name names) facts.staged }
  | .foreign =>
    { facts with
      opaqueDirs := insertName (dstDir entry.dst) (insertName (dstName entry.dst) facts.opaqueDirs) }

def stepFacts (facts : PlaybookFacts) : Step → PlaybookFacts
  | .copy copy => copy.entries.foldl repo.copyFacts facts
  | .install install => { facts with installs := facts.installs ++ [(install.src, install.dst)] }
  | _ => facts

def playbookFacts (text : String) : Option PlaybookFacts :=
  match parseScript text with
  | .error _ => none
  | .ok plan => some (plan.steps.foldl repo.stepFacts ⟨[], [], [], [], variablesOf text, []⟩)

def checkInstall (facts : PlaybookFacts) (src : String) : Option Finding :=
  match stripWorkdir src with
  | none => none
  | some rest =>
    let resolved := resolve facts.vars rest
    let (dir, name) := splitDir resolved
    if name = "" || Str.contains name "*" then none
    else
      match facts.staged.lookup dir with
      | none => if dir ∈ facts.opaqueDirs then none else some (.unstaged src dir)
      | some files =>
        if name ∉ files then some (.unlisted src dir files)
        else if facts.serviceDirs.any (fun d => repo.existsAt (servicePath d) resolved) ||
          facts.copySources.any (repo.existsAt []) then none
        else some (.absent src)

/-- What the check says of the installs of a playbook. -/
def report (text : String) : Option (List Finding) :=
  (repo.playbookFacts text).map fun facts =>
    facts.installs.filterMap fun install => repo.checkInstall facts install.1

def checkPlaybook (location text : String) : List Problem :=
  match repo.report text with
  | none => [⟨location, "the playbook does not parse"⟩]
  | some findings => findings.map fun finding => ⟨location, finding.message⟩

end Repo

/-! What the copies land, by components below the staging directory. -/

def stepCopies : Step → List CopyEntry
  | .copy copy => copy.entries
  | _ => []

def stepInstalls : Step → List (String × String)
  | .install install => [(install.src, install.dst)]
  | _ => []

def copies (plan : ExecutionPlan) : List CopyEntry := plan.steps.flatMap stepCopies

def installs (plan : ExecutionPlan) : List (String × String) := plan.steps.flatMap stepInstalls

/-- Where a destination lies in the staging directory. -/
def stagingPath (vars : Vars) (dst : String) : Option Path :=
  if dst = "$WORKDIR" || dst = "$\x7bWORKDIR\x7d" then some []
  else (stripWorkdir dst).map fun rest => pathParts (resolve vars rest)

/-- The file that the source of an install names; without one, or with a pattern, none. -/
def wanted (vars : Vars) (src : String) : Option String :=
  ((stripWorkdir src).map (resolve vars)).filter fun resolved =>
    (splitDir resolved).2 ≠ "" && !Str.contains (splitDir resolved).2 "*"

/-- What a source is in the repository; a name under `services/` means a file of it, there or not. -/
inductive Origin
  | dir (p : Path)
  | file (present : Bool)
  | foreign
deriving DecidableEq, Repr

namespace Repo
variable (repo : Repo)

def origin (source : String) : Origin :=
  if Str.startsWith source "/" then .foreign
  else if repo.existsAt [] source then
    if repo.isDir (pathParts source) then .dir (pathParts source) else .file true
  else if Str.startsWith source "services/" then .file false
  else .foreign

def isFile (p : Path) : Bool := (repo.found p).any (· ≠ .dir)

/-- A file goes under the destination's name, and into a destination that ends in a slash. -/
def fileLanding (vars : Vars) (entry : CopyEntry) (there : Path) : Path :=
  if Placement.isContents (resolve vars entry.dst) || there = [] then
    there ++ (pathParts (resolve vars entry.src)).getLast?.toList
  else there

def lands (vars : Vars) (entry : CopyEntry) (file : Path) : Bool :=
  match stagingPath vars entry.dst with
  | none => false
  | some there =>
    match repo.origin (resolve vars entry.src) with
    | .dir p => ((Path.below there file).map fun q => repo.isFile (p ++ q)).getD false
    | .file _ => file == fileLanding vars entry there
    | .foreign => there.isPrefixOf file

/-- The file would be landed, but only out of files that the repository does not have. -/
def Missing (vars : Vars) (entries : List CopyEntry) (file : Path) : Prop :=
  (∃ e ∈ entries, repo.lands vars e file = true) ∧
    ∀ e ∈ entries, repo.lands vars e file = true → repo.origin (resolve vars e.src) = .file false

end Repo

def Finding.notStaged (src : String) : Finding → Bool
  | .unstaged s _ => s == src
  | .unlisted s _ _ => s == src
  | .absent _ => false

def Finding.missing (src : String) : Finding → Bool
  | .absent s => s == src
  | _ => false

/-- The check says of every install whether its file is landed, and whether it is there. -/
def Exact (repo : Repo) (text : String) : Prop :=
  ∀ plan findings, parseScript text = .ok plan → repo.report text = some findings →
    ∀ install ∈ installs plan, ∀ file, wanted (variablesOf text) install.1 = some file →
      (findings.any (Finding.notStaged install.1) = true ↔
        ¬ ∃ e ∈ copies plan, repo.lands (variablesOf text) e (pathParts file) = true) ∧
      (findings.any (Finding.missing install.1) = true ↔
        repo.Missing (variablesOf text) (copies plan) (pathParts file))

/-! How the check reads the copies of a playbook one by one. -/

namespace Repo
section
variable (repo : Repo) (vars : Vars)

/-- An entry of a directory, or an entry of a directory in it. -/
def Listed (p : Path) (name : String) : Prop :=
  ∃ entry ∈ repo.names p, name = entry ∨
    repo.isDir (p ++ [entry]) = true ∧ ∃ file ∈ repo.names (p ++ [entry]), name = entry ++ "/" ++ file

/-- The copy of a service directory is all that its destination's name holds from there on. -/
def Resets (e : CopyEntry) (dir : String) : Prop :=
  ∃ d, repo.reading vars e = .directory d ∧ dstName e.dst = dir

def PutsFile (e : CopyEntry) (dir : String) : Prop :=
  repo.reading vars e = .file ∧ baseName e.dst ≠ "" ∧ dstDir e.dst = dir

def Puts (e : CopyEntry) (dir name : String) : Prop :=
  (∃ d, repo.reading vars e = .directory d ∧ dstName e.dst = dir ∧
    repo.Listed (servicePath d) name) ∨
  (repo.PutsFile vars e dir ∧ baseName e.dst = name)

def Opens (e : CopyEntry) (dir : String) : Prop :=
  repo.reading vars e = .foreign ∧ (dstName e.dst = dir ∨ dstDir e.dst = dir)

/-- Some copy puts the file there, and no later one starts the directory anew. -/
def Staged (entries : List CopyEntry) (dir name : String) : Prop :=
  ∃ before e after, entries = before ++ e :: after ∧ repo.Puts vars e dir name ∧
    ∀ later ∈ after, ¬ repo.Resets vars later dir

/-- The check knows what the directory holds. -/
def Keyed (entries : List CopyEntry) (dir : String) : Prop :=
  ∃ e ∈ entries, repo.Resets vars e dir ∨ repo.PutsFile vars e dir

/-- A copy from outside the repository fills the directory, and the check knows of no other. -/
def Unknown (entries : List CopyEntry) (dir : String) : Prop :=
  ¬ repo.Keyed vars entries dir ∧ ∃ e ∈ entries, repo.Opens vars e dir

end
variable {repo : Repo} {vars : Vars}

/-- What stands before the first `$` stays. -/
theorem replace_front {front : List Char} (hfront : '$' ∉ front) (pat rep : List Char)
    (s : List Char) :
    Str.replaceFrom ('$' :: pat) rep 0 (front ++ s) =
      front ++ Str.replaceFrom ('$' :: pat) rep 0 s := by
  induction front with
  | nil => rfl
  | cons c front ih =>
    obtain ⟨hc, hrest⟩ := not_or.mp (List.mem_cons.not.mp hfront)
    have hno : ('$' :: pat).isPrefixOf (c :: (front ++ s)) = false := by
      simp [List.isPrefixOf, hc]
    rw [List.cons_append, Str.replaceFrom, hno, ih hrest]
    rfl

/-- A source in `services/` is still there when its variables are resolved. -/
theorem resolve_services (vars : Vars) (rest : String) :
    ∃ rest', resolve vars ("services/" ++ rest) = "services/" ++ rest' := by
  unfold resolve
  induction vars generalizing rest with
  | nil => exact ⟨rest, rfl⟩
  | cons v vars ih =>
    have hreplace : ∀ pat rep s : String, pat.toList.head? = some '$' →
        ∃ s', Str.replace ("services/" ++ s) pat rep = "services/" ++ s' := by
      intro pat rep s hpat
      obtain ⟨tail, htail⟩ := List.head?_eq_some_iff.mp hpat
      refine ⟨String.ofList (Str.replaceFrom ('$' :: tail) rep.toList 0 s.toList), ?_⟩
      apply String.toList_inj.mp
      rw [Str.replace, String.toList_ofList, htail, String.toList_append,
        replace_front (by decide)]
      simp
    obtain ⟨braced, hbraced⟩ := hreplace ("$\x7b" ++ v.1 ++ "\x7d") v.2 rest (by simp)
    obtain ⟨bare, hbare⟩ := hreplace ("$" ++ v.1) v.2 braced (by simp)
    rw [List.foldl_cons, hbraced, hbare]
    exact ih bare

/-- So the second look for `services/`, in the source as it is written, finds nothing. -/
theorem reading_ne_foreign {e : CopyEntry} {rest : String} (h : e.src = "services/" ++ rest) :
    repo.reading vars e ≠ .foreign := by
  obtain ⟨rest', hrest⟩ := resolve_services vars rest
  rw [reading, h, hrest, Str.stripPrefix_append]
  simp only
  split
  · nofun
  · nofun

theorem mem_insertName {name other : String} {names : List String} :
    other ∈ insertName name names ↔ other = name ∨ other ∈ names := by
  induction names with
  | nil => simp [insertName]
  | cons first rest ih =>
    unfold insertName
    split
    · next h => simp [h]
    · split
      · simp
      · simp only [List.mem_cons, ih]
        tauto

/-- A fold whose every step adds the names of one element. -/
theorem mem_foldl_names {α : Type} {step : List String → α → List String} {adds : α → Prop}
    {name : String} (hstep : ∀ names a, name ∈ step names a ↔ name ∈ names ∨ adds a) (l : List α)
    (names : List String) : name ∈ l.foldl step names ↔ name ∈ names ∨ ∃ a ∈ l, adds a := by
  induction l generalizing names with
  | nil => simp
  | cons a l ih =>
    rw [List.foldl_cons, ih, hstep, or_assoc]
    simp

theorem mem_stagedFiles {p : Path} {name : String} :
    name ∈ repo.stagedFiles p ↔ repo.Listed p name := by
  have hentry : ∀ files entry, name ∈ (if repo.isDir (p ++ [entry]) then repo.names (p ++ [entry])
        else []).foldl (fun files file => insertName (entry ++ "/" ++ file) files)
          (insertName entry files) ↔
      name ∈ files ∨ (name = entry ∨ repo.isDir (p ++ [entry]) = true ∧
        ∃ file ∈ repo.names (p ++ [entry]), name = entry ++ "/" ++ file) := by
    intro files entry
    have hadd : ∀ files file, name ∈ insertName (entry ++ "/" ++ file) files ↔
        name ∈ files ∨ name = entry ++ "/" ++ file :=
      fun files file => mem_insertName.trans Or.comm
    rw [mem_foldl_names hadd, mem_insertName, or_assoc, or_left_comm]
    by_cases hdir : repo.isDir (p ++ [entry]) = true
    · simp [hdir]
    · simp [hdir]
  rw [stagedFiles, mem_foldl_names hentry, Listed]
  simp

theorem staged_concat {entries : List CopyEntry} {e : CopyEntry} {dir name : String} :
    repo.Staged vars (entries ++ [e]) dir name ↔
      repo.Puts vars e dir name ∨ repo.Staged vars entries dir name ∧ ¬ repo.Resets vars e dir := by
  constructor
  · rintro ⟨before, e', after, heq, hputs, hlater⟩
    rcases List.eq_nil_or_concat after with rfl | ⟨after, last, rfl⟩
    · obtain ⟨-, hlast⟩ := List.append_inj' heq rfl
      rw [(List.cons.inj hlast).1]
      exact Or.inl hputs
    · rw [List.concat_eq_append, ← List.cons_append, ← List.append_assoc] at heq
      obtain ⟨hfront, hlast⟩ := List.append_inj' heq rfl
      rw [(List.cons.inj hlast).1]
      exact Or.inr ⟨⟨before, e', after, hfront, hputs, fun later h => hlater later (by simp [h])⟩,
        hlater last (by simp)⟩
  · rintro (hputs | ⟨⟨before, e', after, rfl, hputs, hlater⟩, hlast⟩)
    · exact ⟨entries, e, [], rfl, hputs, by simp⟩
    · refine ⟨before, e', after ++ [e], by simp, hputs, fun later h => ?_⟩
      rcases List.mem_append.mp h with h | h
      · exact hlater later h
      · rw [List.mem_singleton.mp h]
        exact hlast

/-- The facts of a playbook before its first step. -/
def start (vars : Vars) : PlaybookFacts := ⟨[], [], [], [], vars, []⟩

/-- What the copies so far have told. -/
structure Told (repo : Repo) (vars : Vars) (entries : List CopyEntry) (facts : PlaybookFacts) : Prop
    where
  vars_eq : facts.vars = vars
  sources : facts.copySources = entries.map fun e => resolve vars e.src
  dirs : ∀ d ∈ facts.serviceDirs, ∃ e ∈ entries, repo.reading vars e = .directory d
  keyed : ∀ dir, (facts.staged.lookup dir).isSome = true ↔ repo.Keyed vars entries dir
  staged : ∀ dir name, name ∈ (facts.staged.lookup dir).getD [] ↔ repo.Staged vars entries dir name
  opened : ∀ dir, dir ∈ facts.opaqueDirs ↔ ∃ e ∈ entries, repo.Opens vars e dir

attribute [local simp] copyFacts stepFacts

theorem told_start : Told repo vars [] (start vars) where
  vars_eq := rfl
  sources := rfl
  dirs := by simp [start]
  keyed := by simp [start, Keyed]
  staged := by simp [start, Staged]
  opened := by simp [start]

theorem keyed_concat {entries : List CopyEntry} {e : CopyEntry} {dir : String} :
    repo.Keyed vars (entries ++ [e]) dir ↔
      repo.Keyed vars entries dir ∨ repo.Resets vars e dir ∨ repo.PutsFile vars e dir := by
  simp [Keyed, or_and_right, exists_or]

theorem opens_concat {entries : List CopyEntry} {e : CopyEntry} {dir : String} :
    (∃ e' ∈ entries ++ [e], repo.Opens vars e' dir) ↔
      (∃ e' ∈ entries, repo.Opens vars e' dir) ∨ repo.Opens vars e dir := by
  simp [or_and_right, exists_or]

section
variable {entries : List CopyEntry} {facts : PlaybookFacts} {e : CopyEntry}

theorem Told.directory (h : Told repo vars entries facts) {d : String}
    (hreading : repo.reading vars e = .directory d) :
    Told repo vars (entries ++ [e]) (repo.copyFacts facts e) := by
  obtain ⟨hvars, hsources, hdirs, hkeyed, hstaged, hopened⟩ := h
  have hresets : ∀ dir, repo.Resets vars e dir ↔ dstName e.dst = dir := fun dir => by
    simp [Resets, hreading]
  have hfile : ∀ dir, ¬ repo.PutsFile vars e dir := fun dir => by simp [PutsFile, hreading]
  have hputs : ∀ dir name, repo.Puts vars e dir name ↔
      dstName e.dst = dir ∧ repo.Listed (servicePath d) name := fun dir name => by
    simp [Puts, hreading, hfile]
  have hopens : ∀ dir, ¬ repo.Opens vars e dir := fun dir => by simp [Opens, hreading]
  simp only [copyFacts, hvars, hreading]
  refine ⟨rfl, by simp [hsources], fun d' hd' => ?_, fun dir => ?_, fun dir name => ?_, fun dir => ?_⟩
  · rcases List.mem_append.mp hd' with hd' | hd'
    · obtain ⟨e', he', hdir⟩ := hdirs d' hd'
      exact ⟨e', List.mem_append_left _ he', hdir⟩
    · rw [List.mem_singleton.mp hd']
      exact ⟨e, by simp, hreading⟩
  · rw [Assoc.lookup_put, keyed_concat, hresets]
    by_cases hdir : dir = dstName e.dst
    · simp [hdir]
    · simp [hdir, Ne.symm hdir, hkeyed, hfile]
  · rw [Assoc.lookup_put, staged_concat, hputs, hresets]
    by_cases hdir : dir = dstName e.dst
    · simp [hdir, mem_stagedFiles]
    · simp [hdir, Ne.symm hdir, hstaged]
  · rw [opens_concat, ← hopened]
    simp [hopens]

theorem Told.file (h : Told repo vars entries facts) (hreading : repo.reading vars e = .file) :
    Told repo vars (entries ++ [e]) (repo.copyFacts facts e) := by
  obtain ⟨hvars, hsources, hdirs, hkeyed, hstaged, hopened⟩ := h
  have hresets : ∀ dir, ¬ repo.Resets vars e dir := fun dir => by simp [Resets, hreading]
  have hopens : ∀ dir, ¬ repo.Opens vars e dir := fun dir => by simp [Opens, hreading]
  have hfile : ∀ dir, repo.PutsFile vars e dir ↔ baseName e.dst ≠ "" ∧ dstDir e.dst = dir :=
    fun dir => by simp [PutsFile, hreading]
  have hputs : ∀ dir name, repo.Puts vars e dir name ↔
      (baseName e.dst ≠ "" ∧ dstDir e.dst = dir) ∧ baseName e.dst = name := fun dir name => by
    simp [Puts, hreading, hfile]
  have hdirs' : ∀ d ∈ facts.serviceDirs, ∃ e' ∈ entries ++ [e], repo.reading vars e' = .directory d :=
    fun d hd => (hdirs d hd).imp fun _ => And.imp_left (List.mem_append_left _)
  have hopened' : ∀ dir, dir ∈ facts.opaqueDirs ↔ ∃ e' ∈ entries ++ [e], repo.Opens vars e' dir :=
    fun dir => by
      rw [opens_concat, ← hopened]
      simp [hopens]
  simp only [copyFacts, hvars, hreading]
  by_cases hname : baseName e.dst = ""
  · rw [if_pos hname]
    refine ⟨rfl, by simp [hsources], hdirs', fun dir => ?_, fun dir name => ?_, hopened'⟩
    · rw [keyed_concat, hkeyed]
      simp [hresets, hfile, hname]
    · rw [staged_concat, hstaged]
      simp [hputs, hresets, hname]
  · rw [if_neg hname]
    refine ⟨rfl, by simp [hsources], hdirs', fun dir => ?_, fun dir name => ?_, hopened'⟩
    · rw [Assoc.lookup_put, keyed_concat, hfile]
      by_cases hdir : dir = dstDir e.dst
      · simp [hdir, hname]
      · simp [hdir, Ne.symm hdir, hkeyed, hresets]
    · rw [Assoc.lookup_put, staged_concat, hputs]
      by_cases hdir : dir = dstDir e.dst
      · simp [hdir, mem_insertName, hname, hstaged, hresets, eq_comm]
      · simp [hdir, Ne.symm hdir, hstaged, hresets]

theorem Told.foreign (h : Told repo vars entries facts) (hreading : repo.reading vars e = .foreign) :
    Told repo vars (entries ++ [e]) (repo.copyFacts facts e) := by
  obtain ⟨hvars, hsources, hdirs, hkeyed, hstaged, hopened⟩ := h
  have hresets : ∀ dir, ¬ repo.Resets vars e dir := fun dir => by simp [Resets, hreading]
  have hfile : ∀ dir, ¬ repo.PutsFile vars e dir := fun dir => by simp [PutsFile, hreading]
  have hputs : ∀ dir name, ¬ repo.Puts vars e dir name := fun dir name => by
    simp [Puts, hreading, hfile]
  simp only [copyFacts, hvars, hreading]
  refine ⟨rfl, by simp [hsources], fun d hd => ?_, fun dir => ?_, fun dir name => ?_, fun dir => ?_⟩
  · exact (hdirs d hd).imp fun _ => And.imp_left (List.mem_append_left _)
  · rw [keyed_concat, hkeyed]
    simp [hresets, hfile]
  · rw [staged_concat, hstaged]
    simp [hputs, hresets]
  · rw [mem_insertName, mem_insertName, opens_concat, hopened]
    simp only [Opens, hreading, true_and, eq_comm (a := dir)]
    rw [← or_assoc, or_comm, or_comm (a := dstDir e.dst = dir)]

/-- One copy more. -/
theorem Told.copy (h : Told repo vars entries facts) :
    Told repo vars (entries ++ [e]) (repo.copyFacts facts e) := by
  cases hreading : repo.reading vars e with
  | directory d => exact h.directory hreading
  | file => exact h.file hreading
  | foreign => exact h.foreign hreading

end

theorem told_copies (entries : List CopyEntry) :
    Told repo vars entries (entries.foldl repo.copyFacts (start vars)) := by
  induction entries using List.reverseRecOn with
  | nil => exact told_start
  | append_singleton entries e ih =>
    rw [List.foldl_append]
    exact ih.copy

/-- The installs stand apart from what the copies tell. -/
def withInstalls (facts : PlaybookFacts) (installs : List (String × String)) : PlaybookFacts :=
  { facts with installs := facts.installs ++ installs }

theorem copyFacts_withInstalls (facts : PlaybookFacts) (installs : List (String × String))
    (e : CopyEntry) : repo.copyFacts (withInstalls facts installs) e =
      withInstalls (repo.copyFacts facts e) installs := by
  simp only [copyFacts, withInstalls]
  split
  · rfl
  · split <;> rfl
  · rfl

theorem installs_foldl (entries : List CopyEntry) (facts : PlaybookFacts) :
    (entries.foldl repo.copyFacts facts).installs = facts.installs := by
  induction entries generalizing facts with
  | nil => rfl
  | cons e entries ih =>
    rw [List.foldl_cons, ih, copyFacts]
    split
    · rfl
    · simp only
      split <;> rfl
    · rfl

theorem foldl_copyFacts_withInstalls (entries : List CopyEntry) (facts : PlaybookFacts)
    (installs : List (String × String)) :
    entries.foldl repo.copyFacts (withInstalls facts installs) =
      withInstalls (entries.foldl repo.copyFacts facts) installs := by
  induction entries generalizing facts with
  | nil => rfl
  | cons e entries ih => rw [List.foldl_cons, copyFacts_withInstalls, ih, List.foldl_cons]

theorem stepFacts_eq (facts : PlaybookFacts) (step : Step) : repo.stepFacts facts step =
    withInstalls ((stepCopies step).foldl repo.copyFacts facts) (stepInstalls step) := by
  cases step <;> simp [stepFacts, withInstalls, stepCopies, stepInstalls]

theorem foldl_stepFacts (steps : List Step) (facts : PlaybookFacts) :
    steps.foldl repo.stepFacts facts =
      withInstalls ((steps.flatMap stepCopies).foldl repo.copyFacts facts)
        (steps.flatMap stepInstalls) := by
  induction steps generalizing facts with
  | nil => simp [withInstalls]
  | cons step steps ih =>
    rw [List.foldl_cons, ih, stepFacts_eq, foldl_copyFacts_withInstalls, List.flatMap_cons,
      List.flatMap_cons, List.foldl_append]
    simp [withInstalls]

theorem pathParts_dropWhile (l : List Char) :
    pathParts (String.ofList (l.dropWhile (· == '/'))) = pathParts (String.ofList l) := by
  induction l with
  | nil => rfl
  | cons c l ih =>
    by_cases hc : c = '/'
    · have htext : String.ofList (c :: l) = "" ++ "/" ++ String.ofList l :=
        String.toList_inj.mp (by simp [hc])
      rw [htext, pathParts_concat, List.dropWhile_cons_of_pos (by simp [hc]), ih]
      rfl
    · rw [List.dropWhile_cons_of_neg (by simp [hc])]

theorem pathParts_rdropWhile (l : List Char) :
    pathParts (String.ofList (l.rdropWhile (· == '/'))) = pathParts (String.ofList l) := by
  induction l using List.reverseRecOn with
  | nil => rfl
  | append_singleton l c ih =>
    by_cases hc : c = '/'
    · have htext : String.ofList (l ++ [c]) = String.ofList l ++ "/" :=
        String.toList_inj.mp (by simp [hc])
      rw [htext, Placement.pathParts_append_slash, List.rdropWhile_concat_pos _ _ _ (by simp [hc]), ih]
    · rw [List.rdropWhile_concat_neg _ _ _ (by simp [hc])]

/-- A service directory that the check has met is there under its copy's own source, too. -/
theorem exists_of_directory {source : String} {rest d : String}
    (hsource : Str.stripPrefix source "services/" = some rest) (hd : trimMatches rest '/' = d)
    (hdir : repo.isDir (servicePath d) = true) : repo.existsAt [] source = true := by
  have htext : source = "services" ++ "/" ++ rest := (Str.stripPrefix_eq_some hsource).trans (by simp)
  have hparts : pathParts source = servicePath d := by
    rw [htext, pathParts_concat, servicePath, ← hd, trimMatches, pathParts_rdropWhile,
      pathParts_dropWhile, String.ofList_toList]
    rfl
  have hroot : Str.startsWith source "/" = false := by
    rw [htext]
    simp [Str.startsWith, List.isPrefixOf]
  have hfound : repo.found (servicePath d) = some .dir := by simpa [isDir] using hdir
  rw [existsAt, hroot, hparts, List.nil_append, hfound]
  rfl

section
variable {entries : List CopyEntry} {facts : PlaybookFacts}

/-- What the service directories hold adds nothing: such a directory is itself a source that exists. -/
theorem Told.exists_iff (h : Told repo vars entries facts) (file : String) :
    (facts.serviceDirs.any (fun d => repo.existsAt (servicePath d) file) ||
      facts.copySources.any (repo.existsAt [])) = true ↔
      ∃ e ∈ entries, repo.existsAt [] (resolve vars e.src) = true := by
  have hsources : facts.copySources.any (repo.existsAt []) = true ↔
      ∃ e ∈ entries, repo.existsAt [] (resolve vars e.src) = true := by
    rw [h.sources, List.any_map, List.any_eq_true]
    rfl
  rw [Bool.or_eq_true, hsources]
  constructor
  · intro hany
    rcases hany with hany | hany
    · obtain ⟨d, hd, -⟩ := List.any_eq_true.mp hany
      obtain ⟨e, he, hreading⟩ := h.dirs d hd
      refine ⟨e, he, ?_⟩
      unfold reading at hreading
      split at hreading
      · next rest hrest =>
        split at hreading
        · next hdir =>
          injection hreading with hd
          rw [hd] at hdir
          exact exists_of_directory hrest hd hdir
        · cases hreading
      · cases hreading
    · exact hany
  · exact Or.inr

variable {src file : String}

/-- The verdict over an install whose file the check looks for. -/
def verdict (repo : Repo) (facts : PlaybookFacts) (src file : String) : Option Finding :=
  match facts.staged.lookup (splitDir file).1 with
  | none =>
    if (splitDir file).1 ∈ facts.opaqueDirs then none else some (.unstaged src (splitDir file).1)
  | some files =>
    if (splitDir file).2 ∉ files then some (.unlisted src (splitDir file).1 files)
    else if facts.serviceDirs.any (fun d => repo.existsAt (servicePath d) file) ||
      facts.copySources.any (repo.existsAt []) then none
    else some (.absent src)

theorem checkInstall_wanted (hw : wanted facts.vars src = some file) :
    repo.checkInstall facts src = verdict repo facts src file := by
  obtain ⟨hresolved, hname⟩ := Option.filter_eq_some_iff.mp hw
  obtain ⟨rest, hrest, rfl⟩ := Option.map_eq_some_iff.mp hresolved
  have hnot : ¬ ((splitDir (resolve facts.vars rest)).2 = "" ||
      Str.contains (splitDir (resolve facts.vars rest)).2 "*") = true := by
    simpa using hname
  simp only [checkInstall, hrest, if_neg hnot, verdict]

/-- Every finding names the install that it is about. -/
theorem checkInstall_src {finding : Finding} (h : repo.checkInstall facts src = some finding)
    {other : String} (hother : finding.notStaged other = true ∨ finding.missing other = true) :
    src = other := by
  unfold checkInstall at h
  split at h
  · cases h
  · simp only at h
    split at h
    · cases h
    · split at h
      · split at h
        · cases h
        · cases h
          simpa [Finding.notStaged, Finding.missing] using hother
      · split at h
        · cases h
          simpa [Finding.notStaged, Finding.missing] using hother
        · split at h
          · cases h
          · cases h
            simpa [Finding.notStaged, Finding.missing] using hother

theorem Told.lookup_cases (h : Told repo vars entries facts) (dir name : String) :
    (facts.staged.lookup dir = none ∧ ¬ repo.Keyed vars entries dir ∧
      ¬ repo.Staged vars entries dir name) ∨
    ∃ files, facts.staged.lookup dir = some files ∧ repo.Keyed vars entries dir ∧
      (name ∈ files ↔ repo.Staged vars entries dir name) := by
  have hkeyed := h.keyed dir
  have hstaged := h.staged dir name
  cases hlookup : facts.staged.lookup dir with
  | none =>
    rw [hlookup] at hkeyed hstaged
    exact Or.inl ⟨rfl, by simpa using hkeyed, by simpa using hstaged⟩
  | some files =>
    rw [hlookup] at hkeyed hstaged
    exact Or.inr ⟨files, rfl, by simpa using hkeyed, by simpa using hstaged⟩

theorem Told.notStaged_iff (h : Told repo vars entries facts) :
    (verdict repo facts src file).any (Finding.notStaged src) = true ↔
      ¬ (repo.Staged vars entries (splitDir file).1 (splitDir file).2 ∨
        repo.Unknown vars entries (splitDir file).1) := by
  rw [Unknown, ← h.opened]
  unfold verdict
  rcases h.lookup_cases (splitDir file).1 (splitDir file).2 with
    ⟨hlookup, hkeyed, hstaged⟩ | ⟨files, hlookup, hkeyed, hstaged⟩
  · simp only [hlookup]
    split
    · next hopen => simp [hkeyed, hopen]
    · next hopen => simp [hstaged, hopen, Finding.notStaged]
  · simp only [hlookup]
    by_cases hname : (splitDir file).2 ∈ files
    · have hput := hstaged.mp hname
      rw [if_neg (not_not.mpr hname)]
      split
      · simp [hput]
      · simp [hput, Finding.notStaged]
    · have hput := mt hstaged.mpr hname
      rw [if_pos hname]
      simp [hput, hkeyed, Finding.notStaged]

theorem Told.missing_iff (h : Told repo vars entries facts) :
    (verdict repo facts src file).any (Finding.missing src) = true ↔
      repo.Staged vars entries (splitDir file).1 (splitDir file).2 ∧
        ∀ e ∈ entries, repo.existsAt [] (resolve vars e.src) = false := by
  unfold verdict
  rcases h.lookup_cases (splitDir file).1 (splitDir file).2 with
    ⟨hlookup, hkeyed, hstaged⟩ | ⟨files, hlookup, hkeyed, hstaged⟩
  · simp only [hlookup]
    split
    · simp [hstaged]
    · simp [hstaged, Finding.missing]
  · simp only [hlookup, h.exists_iff]
    by_cases hname : (splitDir file).2 ∈ files
    · have hput := hstaged.mp hname
      rw [if_neg (not_not.mpr hname)]
      by_cases hexists : ∃ e ∈ entries, repo.existsAt [] (resolve vars e.src) = true
      · rw [if_pos hexists]
        simpa [hput] using hexists
      · rw [if_neg hexists]
        simpa [hput, Finding.missing] using hexists
    · have hput := mt hstaged.mpr hname
      rw [if_pos hname]
      simp [hput, Finding.missing]

end

/-- What the check sees of an install's file is what the copies land. -/
structure Judges (repo : Repo) (vars : Vars) (entries : List CopyEntry) (file : String) : Prop where
  staged : (repo.Staged vars entries (splitDir file).1 (splitDir file).2 ∨
    repo.Unknown vars entries (splitDir file).1) ↔
      ∃ e ∈ entries, repo.lands vars e (pathParts file) = true
  absent : (repo.Staged vars entries (splitDir file).1 (splitDir file).2 ∧
    ∀ e ∈ entries, repo.existsAt [] (resolve vars e.src) = false) ↔
      repo.Missing vars entries (pathParts file)

theorem any_findings_iff {facts : PlaybookFacts} {test : Finding → Bool} {src : String}
    (htest : ∀ finding, test finding = true →
      finding.notStaged src = true ∨ finding.missing src = true)
    {installs : List (String × String)} (hsrc : src ∈ installs.map Prod.fst) :
    (installs.filterMap fun install => repo.checkInstall facts install.1).any test = true ↔
      (repo.checkInstall facts src).any test = true := by
  rw [List.any_eq_true]
  constructor
  · intro h
    obtain ⟨finding, hmem, hfinding⟩ := h
    obtain ⟨install, -, hcheck⟩ := List.mem_filterMap.mp hmem
    have heq := checkInstall_src hcheck (htest finding hfinding)
    rw [← heq, hcheck]
    exact hfinding
  · intro h
    obtain ⟨install, hinstall, rfl⟩ := List.mem_map.mp hsrc
    cases hcheck : repo.checkInstall facts install.1 with
    | none =>
      rw [hcheck] at h
      cases h
    | some finding =>
      rw [hcheck, Option.any_some] at h
      exact ⟨finding, List.mem_filterMap.mpr ⟨install, hinstall, hcheck⟩, h⟩

section
variable {plan : ExecutionPlan} {text file : String}

/-- The facts of a playbook that parses. -/
def factsOf (repo : Repo) (text : String) (plan : ExecutionPlan) : PlaybookFacts :=
  withInstalls ((copies plan).foldl repo.copyFacts (start (variablesOf text))) (installs plan)

theorem playbookFacts_eq (hplan : parseScript text = .ok plan) :
    repo.playbookFacts text = some (factsOf repo text plan) := by
  simp only [playbookFacts, hplan]
  exact congrArg some (foldl_stepFacts plan.steps (start (variablesOf text)))

theorem factsOf_installs : (factsOf repo text plan).installs = installs plan := by
  rw [factsOf, withInstalls, installs_foldl]
  rfl

theorem report_eq (hplan : parseScript text = .ok plan) : repo.report text =
    some ((installs plan).filterMap fun install =>
      repo.checkInstall (factsOf repo text plan) install.1) := by
  rw [report, playbookFacts_eq hplan, Option.map_some, factsOf_installs]

theorem told_facts : Told repo (variablesOf text) (copies plan) (factsOf repo text plan) := by
  obtain ⟨hvars, hsources, hdirs, hkeyed, hstaged, hopened⟩ :=
    @told_copies repo (variablesOf text) (copies plan)
  exact ⟨hvars, hsources, hdirs, hkeyed, hstaged, hopened⟩

variable {install : String × String} (hinstall : install ∈ installs plan)
  (hfile : wanted (variablesOf text) install.1 = some file)
include hinstall hfile

theorem any_notStaged_iff : (((installs plan).filterMap fun install =>
      repo.checkInstall (factsOf repo text plan) install.1).any (Finding.notStaged install.1)) = true ↔
    ¬ (repo.Staged (variablesOf text) (copies plan) (splitDir file).1 (splitDir file).2 ∨
      repo.Unknown (variablesOf text) (copies plan) (splitDir file).1) := by
  have htold := @told_facts repo plan text
  rw [any_findings_iff (fun _ h => Or.inl h) (List.mem_map_of_mem hinstall),
    checkInstall_wanted (htold.vars_eq ▸ hfile), htold.notStaged_iff]

theorem any_missing_iff : (((installs plan).filterMap fun install =>
      repo.checkInstall (factsOf repo text plan) install.1).any (Finding.missing install.1)) = true ↔
    repo.Staged (variablesOf text) (copies plan) (splitDir file).1 (splitDir file).2 ∧
      ∀ e ∈ copies plan, repo.existsAt [] (resolve (variablesOf text) e.src) = false := by
  have htold := @told_facts repo plan text
  rw [any_findings_iff (fun _ h => Or.inr h) (List.mem_map_of_mem hinstall),
    checkInstall_wanted (htold.vars_eq ▸ hfile), htold.missing_iff]

end

end Repo
open Repo

def entryAt (entries : List (Path × Node)) (q : Path) : Option Node :=
  (entries.find? fun e => e.1 = q).map Prod.snd

theorem entryAt_ne_none_iff {entries : List (Path × Node)} {q : Path} :
    entryAt entries q ≠ none ↔ q ∈ entries.map Prod.fst := by
  simp [entryAt]

/-- A repository with these entries and nothing else. -/
def Repo.ofEntries (entries : List (Path × Node))
    (hparts : ∀ p ∈ entries.map Prod.fst, ∀ part ∈ p, IsPart part ∧ part ≠ "..")
    (hdirs : ∀ p ∈ entries.map Prod.fst, p = [] ∨ entryAt entries p.dropLast = some .dir) : Repo where
  found := entryAt entries
  names p := (entries.map Prod.fst).filterMap fun q => if q.dropLast = p then q.getLast? else none
  elsewhere _ := false
  closed q name h := by
    rcases hdirs _ (entryAt_ne_none_iff.mp h) with hnil | hdir
    · simp at hnil
    · simpa using hdir
  mem_names p name := by
    constructor
    · intro h
      obtain ⟨q, hq, hlast⟩ := List.mem_filterMap.mp h
      split at hlast
      · next hdrop =>
        have hq' : q = p ++ [name] := by
          rw [← hdrop]
          exact (List.dropLast_append_getLast? name hlast).symm
        rw [hq'] at hq
        obtain ⟨hpart, hup⟩ := hparts _ hq name (by simp)
        exact ⟨hpart, hup, entryAt_ne_none_iff.mpr hq⟩
      · cases hlast
    · intro h
      exact List.mem_filterMap.mpr ⟨p ++ [name], entryAt_ne_none_iff.mp h.2.2, by simp⟩

/-- A service and the shared hardening. -/
def twoServices : Repo := Repo.ofEntries
  [([], .dir), (["services"], .dir), (["services", "app"], .dir),
    (["services", "app", "app.service"], .file []), (["services", "common"], .dir),
    (["services", "common", "hard.conf"], .file [])]
  (by simp [IsPart]) (by decide)

/-- Both are copied into one staging directory. -/
def sharedText : String :=
  "# @server a h\n# @copy services/app -> $WORKDIR/all @a\n" ++
  "# @copy services/common -> $WORKDIR/all @a\n" ++
  "# @install $WORKDIR/all/app.service -> /etc/app.service @a\n"

end Shellflow.Staging
