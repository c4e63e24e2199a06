import Shellflow.Host.Backup
import Shellflow.Lib.Process

/-! The install verb of the target and the helpers that it elevates with: as root they act themselves,
for any other login they go through `sudo` with another program. -/
namespace Shellflow.Elevated
open Process Process.Program

structure File where
  content : String
  owner : String
  mode : Nat
deriving DecidableEq, Repr

/-- A file, or a directory with what was moved into it: a file, or `none` for another directory. -/
inductive Node where
  | file (f : File)
  | directory (held : List (Option File))
deriving DecidableEq, Repr

/-- The directory of the destination: it is there, or it is missing below so many others that are, or
a file is in the way. -/
inductive Dirs where
  | present (mode : Nat)
  | missing (above : Nat)
  | made (above aboveMode mode : Nat)
  | blocked
deriving DecidableEq, Repr

/-- What an install can touch: the directory, the staging file in it, and the destination. -/
structure Site where
  dirs : Dirs
  staged : Option Node
  dest : Option Node
deriving DecidableEq, Repr

inductive Source where
  | missing
  | directory
  | file (content : String)
deriving DecidableEq, Repr

/-- The user that an owner names; `:group` names none. -/
def ownerUser (owner : String) : Option String :=
  let user := ((Str.splitOnce owner ":").map Prod.fst).getD owner
  if user = "" then none else some user

/-- An ordinary login and what it may do: look at the source and read it, look into the directory,
remove, create and open the staging file, make directories, replace the destination, and change the
owner of a file of its own, which only root can give away. -/
structure User where
  name : String
  visible : Bool
  readable : Bool
  seesDir : Bool
  unlinks : Bool
  creates : Bool
  opens : Bool
  makes : Bool
  moves : Bool
  chowns : String → Bool
  keeps : ∀ owner user, chowns owner = true → ownerUser owner = some user → user = name

inductive Login where
  | root
  | user (u : User)

def Login.may (login : Login) (right : User → Bool) : Bool :=
  match login with
  | .root => true
  | .user u => right u

structure Machine where
  umask : Nat
  source : Source
  known : String → Bool

inductive Failure where
  | usage
  | failed
  | internal
deriving DecidableEq, Repr

structure InstallArgs where
  src : String
  dst : String
  mode : Option Nat
  owner : Option String
  dirMode : Option Nat

abbrev Verb := Program Site Failure

/-- The modes that `chmod` and `install -m` take. -/
def validMode (mode : Nat) : Bool := mode ≤ 0o7777

/-- What the umask leaves of the mode of a new directory. -/
def unmasked (umask : Nat) : Nat := 0o777 - (umask &&& 0o777)

def InstallArgs.fileMode (args : InstallArgs) : Nat := args.mode.getD 0o644

def InstallArgs.parentMode (args : InstallArgs) : Nat := args.dirMode.getD 0o755

section Helpers
variable (login : Login) (machine : Machine)

/-- A directory that the login cannot look at counts as missing; `install -d` gives it the mode. -/
def createDirAllElevated (mode : Nat) : Verb Unit := fun s =>
  match s.dirs, login with
  | .blocked, _ => (.failed .internal, s)
  | .made .., _ => (.returned (), s)
  | .present _, .root => (.returned (), s)
  | .missing above, .root =>
    (.returned (), { s with dirs := .made above (unmasked machine.umask) (unmasked machine.umask) })
  | .present _, .user u =>
    if u.seesDir then (.returned (), s)
    else if validMode mode then (.returned (), { s with dirs := .present mode })
    else (.failed .internal, s)
  | .missing above, .user _ =>
    if validMode mode then (.returned (), { s with dirs := .made above 0o755 mode })
    else (.failed .internal, s)

/-- `fs::remove_file`, whatever it answers. -/
def removeStaged : Verb Unit := fun s =>
  match s.staged with
  | some (.file _) =>
    if login.may User.unlinks then (.returned (), { s with staged := none }) else (.returned (), s)
  | _ => (.returned (), s)

def readSource : Verb String := fun s =>
  match machine.source with
  | .file content =>
    if login.may User.readable then (.returned content, s) else (.failed .internal, s)
  | _ => (.failed .internal, s)

/-- As root the file that is there is written to; `install` replaces it, and a directory takes the
file in. -/
def writeFileElevated (contents : String) (mode : Nat) : Verb Unit := fun s =>
  match login, s.staged with
  | .root, some (.directory _) => (.failed .internal, s)
  | .root, some (.file f) =>
    (.returned (), { s with staged := some (.file ⟨contents, f.owner, mode % 0o10000⟩) })
  | .root, none =>
    (.returned (), { s with staged := some (.file ⟨contents, "root", mode % 0o10000⟩) })
  | .user _, staged =>
    if validMode mode then
      match staged with
      | some (.directory held) =>
        (.returned (),
          { s with staged := some (.directory (held ++ [some ⟨contents, "root", mode⟩])) })
      | _ => (.returned (), { s with staged := some (.file ⟨contents, "root", mode⟩) })
    else (.failed .internal, s)

/-- A file with the owner that is asked for. -/
def File.chown (f : File) (owner : String) : File :=
  { f with owner := (ownerUser owner).getD f.owner }

def Node.chown (node : Node) (owner : String) : Node :=
  match node with
  | .file f => .file (f.chown owner)
  | .directory held => .directory held

def chownElevated (owner : String) : Verb Unit := fun s =>
  if machine.known owner ∧ s.staged.isSome then
    (.returned (), { s with staged := s.staged.map fun node => node.chown owner })
  else (.failed .internal, s)

def Node.asHeld : Node → Option File
  | .file f => some f
  | .directory _ => none

/-- `rename` puts nothing into a directory; `mv` does. -/
def renameElevated : Verb Unit := fun s =>
  match s.staged, s.dest, login with
  | none, _, _ => (.failed .internal, s)
  | some node, none, _ => (.returned (), { s with staged := none, dest := some node })
  | some (.file f), some (.file _), _ =>
    (.returned (), { s with staged := none, dest := some (.file f) })
  | some (.directory _), some (.file _), _ => (.failed .internal, s)
  | some (.directory held), some (.directory []), .root =>
    (.returned (), { s with staged := none, dest := some (.directory held) })
  | some _, some (.directory _), .root => (.failed .internal, s)
  | some node, some (.directory held), .user _ =>
    (.returned (), { s with staged := none, dest := some (.directory (held ++ [node.asHeld])) })

end Helpers

section Install
variable (login : Login) (machine : Machine) (args : InstallArgs)

/-- The paths that an install refuses at once. -/
def guarded : Bool :=
  (validateAbsolutePath args.src).isOk && (validateAbsolutePath args.dst).isOk

def installGuards : Verb Unit :=
  if !guarded args then fail .usage
  else if machine.source = .missing ∨ login.may User.visible = false then fail .failed
  else pure ()

def chownStaged : Verb Unit :=
  match args.owner with
  | some owner => chownElevated machine owner
  | none => pure ()

/-- Everything up to the rename. -/
def prepare : Verb Unit := do
  installGuards login machine args
  createDirAllElevated login machine args.parentMode
  removeStaged login
  let contents ← readSource login machine
  writeFileElevated login contents args.fileMode
  chownStaged machine args

def install : Verb Unit := do
  prepare login machine args
  renameElevated login

end Install

section Works
variable (login : Login) (machine : Machine) (args : InstallArgs)

/-- The install passes its guards and reads the source. -/
def Reads (content : String) : Prop :=
  guarded args = true ∧ login.may User.visible = true ∧ login.may User.readable = true ∧
    machine.source = .file content

/-- The directory of the destination after the install has seen to it, where that succeeds. -/
def madeDirs : Dirs → Option Dirs
  | .blocked => none
  | .made above aboveMode mode => some (.made above aboveMode mode)
  | .missing above =>
    match login with
    | .root => some (.made above (unmasked machine.umask) (unmasked machine.umask))
    | .user _ => if validMode args.parentMode then some (.made above 0o755 args.parentMode) else none
  | .present old =>
    if login.may User.seesDir then some (.present old)
    else if validMode args.parentMode then some (.present args.parentMode) else none

/-- The staging file before the owner is changed, where it is written. -/
def stagedNode (content : String) (staged : Option Node) : Option Node :=
  match login, staged with
  | .root, some (.directory _) => none
  | .root, _ => some (.file ⟨content, "root", args.fileMode % 0o10000⟩)
  | .user _, staged =>
    if validMode args.fileMode then
      match staged with
      | some (.directory held) => some (.directory (held ++ [some ⟨content, "root", args.fileMode⟩]))
      | _ => some (.file ⟨content, "root", args.fileMode⟩)
    else none

def OwnerKnown : Prop := ∀ owner, args.owner = some owner → machine.known owner = true

/-- The file with the owner of the arguments. -/
def owned (node : Node) : Node :=
  match args.owner with
  | some owner => node.chown owner
  | none => node

/-- The install comes to its rename with this site. -/
def Prepares (s s' : Site) : Prop :=
  ∃ content dirs node, Reads login machine args content ∧
    madeDirs login machine args s.dirs = some dirs ∧
    stagedNode login args content s.staged = some node ∧ OwnerKnown machine args ∧
    s' = ⟨dirs, some (owned args node), s.dest⟩

end Works

section Prepare
variable {login : Login} {machine : Machine} {args : InstallArgs} {s : Site}

theorem installGuards_apply : (∃ e, installGuards login machine args s = (.failed e, s) ∧
      ∀ content, ¬Reads login machine args content) ∨
    (installGuards login machine args s = (.returned (), s) ∧ guarded args = true ∧
      login.may User.visible = true) := by
  rw [installGuards]
  cases hguard : guarded args with
  | false => exact .inl ⟨.usage, rfl, fun content h => by cases hguard.symm.trans h.1⟩
  | true =>
    rw [Bool.not_true, if_neg Bool.false_ne_true]
    by_cases hsource : machine.source = .missing ∨ login.may User.visible = false
    · rw [if_pos hsource]
      refine .inl ⟨.failed, rfl, fun content h => ?_⟩
      obtain ⟨-, hvisible, -, hfile⟩ := h
      rcases hsource with hmissing | hhidden
      · cases hmissing.symm.trans hfile
      · cases hhidden.symm.trans hvisible
    · rw [if_neg hsource]
      refine .inr ⟨rfl, rfl, ?_⟩
      exact Bool.of_not_eq_false fun h => hsource (.inr h)

theorem createDirAllElevated_apply :
    createDirAllElevated login machine args.parentMode s =
      match madeDirs login machine args s.dirs with
      | some dirs => (.returned (), { s with dirs := dirs })
      | none => (.failed .internal, s) := by
  obtain ⟨dirs, staged, dest⟩ := s
  cases login with
  | root => cases dirs <;> rfl
  | user u =>
    cases dirs with
    | present old =>
      by_cases hsees : u.seesDir = true <;> by_cases hmode : validMode args.parentMode = true <;>
        simp [createDirAllElevated, madeDirs, Login.may, hsees, hmode]
    | missing above =>
      by_cases hmode : validMode args.parentMode = true <;>
        simp [createDirAllElevated, madeDirs, hmode]
    | made | blocked => rfl

theorem readSource_apply :
    (readSource login machine s = (.failed .internal, s) ∧
        ∀ content, ¬Reads login machine args content) ∨
      ∃ content, machine.source = .file content ∧ login.may User.readable = true ∧
        readSource login machine s = (.returned content, s) := by
  rw [readSource]
  cases hsource : machine.source with
  | missing | directory =>
    refine .inl ⟨rfl, fun content h => ?_⟩
    cases hsource.symm.trans h.2.2.2
  | file content =>
    by_cases hreadable : login.may User.readable = true
    · exact .inr ⟨content, rfl, hreadable, if_pos hreadable⟩
    · exact .inl ⟨if_neg hreadable, fun content h => hreadable h.2.2.1⟩

/-- What is left of a staging file. -/
def unstaged (login : Login) (staged : Option Node) : Option Node :=
  match staged with
  | some (.file _) => if login.may User.unlinks then none else staged
  | _ => staged

theorem removeStaged_apply :
    removeStaged login s = (.returned (), { s with staged := unstaged login s.staged }) := by
  obtain ⟨dirs, staged, dest⟩ := s
  rcases staged with _ | _ | _
  · rfl
  · by_cases hunlinks : login.may User.unlinks = true <;> simp [removeStaged, unstaged, hunlinks]
  · rfl

theorem writeFileElevated_apply (content : String) (s : Site) :
    writeFileElevated login content args.fileMode { s with staged := unstaged login s.staged } =
      match stagedNode login args content s.staged with
      | some node => (.returned (), { s with staged := some node })
      | none => (.failed .internal, { s with staged := unstaged login s.staged }) := by
  obtain ⟨dirs, staged, dest⟩ := s
  cases login with
  | root => rcases staged with _ | _ | _ <;> rfl
  | user u =>
    by_cases hmode : validMode args.fileMode = true
    · rcases staged with _ | _ | _
      · simp [writeFileElevated, stagedNode, unstaged, hmode]
      · by_cases hunlinks : u.unlinks = true <;>
          simp [writeFileElevated, stagedNode, unstaged, Login.may, hmode, hunlinks]
      · simp [writeFileElevated, stagedNode, unstaged, hmode]
    · simp [writeFileElevated, stagedNode, hmode]

theorem chownStaged_apply {node : Node} (hstaged : s.staged = some node) :
    (OwnerKnown machine args ∧
        chownStaged machine args s = (.returned (), { s with staged := some (owned args node) })) ∨
      (¬OwnerKnown machine args ∧ chownStaged machine args s = (.failed .internal, s)) := by
  rw [chownStaged, owned, OwnerKnown]
  cases howner : args.owner with
  | none =>
    refine .inl ⟨nofun, ?_⟩
    rw [← hstaged]
    rfl
  | some owner =>
    simp only [chownElevated, hstaged]
    by_cases hknown : machine.known owner = true
    · refine .inl ⟨fun owner' h => Option.some.inj h ▸ hknown, ?_⟩
      rw [if_pos ⟨hknown, rfl⟩]
      rfl
    · refine .inr ⟨fun h => hknown (h owner rfl), ?_⟩
      rw [if_neg fun h => hknown h.1]

/-- The install either comes to its rename, or stops before it with the destination untouched. -/
theorem prepare_apply :
    (∃ s', prepare login machine args s = (.returned (), s') ∧ Prepares login machine args s s') ∨
      ∃ e s', prepare login machine args s = (.failed e, s') ∧ s'.dest = s.dest ∧
        ∀ t, ¬Prepares login machine args s t := by
  rw [prepare]
  rcases @installGuards_apply login machine args s with ⟨e, hguard, hreads⟩ | ⟨hguard, hpaths, hvisible⟩
  · refine .inr ⟨e, s, bind_failed hguard, rfl, fun t h => ?_⟩
    obtain ⟨content, -, -, h, -⟩ := h
    exact hreads content h
  · rw [bind_returned hguard]
    have hcreate := @createDirAllElevated_apply login machine args s
    cases hdirs : madeDirs login machine args s.dirs with
    | none =>
      rw [hdirs] at hcreate
      refine .inr ⟨_, s, bind_failed hcreate, rfl, fun t h => ?_⟩
      obtain ⟨-, dirs, -, -, hmade, -⟩ := h
      cases hdirs.symm.trans hmade
    | some dirs =>
      rw [hdirs] at hcreate
      rw [bind_returned hcreate, bind_returned removeStaged_apply]
      rcases @readSource_apply login machine args ⟨dirs, unstaged login s.staged, s.dest⟩ with
        ⟨hread, hreads⟩ | ⟨content, hfile, hreadable, hread⟩
      · refine .inr ⟨.internal, _, bind_failed hread, rfl, fun t h => ?_⟩
        obtain ⟨content, -, -, h, -⟩ := h
        exact hreads content h
      · rw [bind_returned hread]
        have hwrite := @writeFileElevated_apply login args content
          ⟨dirs, s.staged, s.dest⟩
        cases hnode : stagedNode login args content s.staged with
        | none =>
          rw [hnode] at hwrite
          refine .inr ⟨.internal, _, bind_failed hwrite, rfl, fun t h => ?_⟩
          obtain ⟨content', -, node, hreads, -, hstaged, -⟩ := h
          cases hfile.symm.trans hreads.2.2.2
          cases hnode.symm.trans hstaged
        | some node =>
          rw [hnode] at hwrite
          rw [bind_returned hwrite]
          rcases @chownStaged_apply machine args ⟨dirs, some node, s.dest⟩ node rfl with
            ⟨hknown, hchown⟩ | ⟨hknown, hchown⟩
          · exact .inl ⟨_, hchown, content, dirs, node, ⟨hpaths, hvisible, hreadable, hfile⟩, hdirs,
              hnode, hknown, rfl⟩
          · refine .inr ⟨.internal, _, hchown, rfl, fun t h => ?_⟩
            obtain ⟨-, -, -, -, -, -, h, -⟩ := h
            exact hknown h

end Prepare

end Shellflow.Elevated
