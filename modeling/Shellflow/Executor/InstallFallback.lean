import Shellflow.Host.Elevated
import Shellflow.Lib.AndOr

/-! The install step on a target: by the helper's verb where it is installed, and else by a line of
shell, which never elevates. -/
namespace Shellflow.Elevated
open AndOr Process

def Login.userName : Login → String
  | .root => "root"
  | .user u => u.name

section Line
variable (login : Login) (machine : Machine) (args : InstallArgs)

/-- `[ -d "$dir" ]` -/
def isDir (s : Site) : Bool :=
  match s.dirs with
  | .present _ => login.may User.seesDir
  | .made .. => true
  | _ => false

/-- What `mkdir -p` leaves of the mode of a directory above the last: it stays usable. -/
def aboveMode (umask : Nat) : Nat := unmasked umask ||| 0o300

/-- `mkdir -p "$dir"` -/
def mkdirParents : Command Site := fun s =>
  match s.dirs with
  | .missing above =>
    if login.may User.makes then
      ⟨0, false, { s with
        dirs := .made above (aboveMode machine.umask) (unmasked machine.umask) }⟩
    else ⟨1, false, s⟩
  | _ => ⟨1, false, s⟩

/-- The staging file that the redirection opens. -/
def openedFile (s : Site) : Option File :=
  if isDir login s then
    match s.staged with
    | none =>
      if login.may User.creates then
        some ⟨"", login.userName, 0o666 - (machine.umask &&& 0o666)⟩
      else none
    | some (.file f) => if login.may User.opens then some { f with content := "" } else none
    | some (.directory _) => none
  else none

/-- `cat "$s" > "$t"` -/
def catStaged : Command Site := fun s =>
  match openedFile login machine s with
  | none => ⟨1, false, s⟩
  | some f =>
    match machine.source with
    | .file content =>
      if login.may User.readable then
        ⟨0, false, { s with staged := some (.file { f with content := content }) }⟩
      else ⟨1, false, { s with staged := some (.file f) }⟩
    | _ => ⟨1, false, { s with staged := some (.file f) }⟩

/-- Only the owner of a file and root change its mode. -/
def mayChmod (f : File) : Bool :=
  match login with
  | .root => true
  | .user u => f.owner = u.name

/-- `chmod {mode} "$t"` -/
def chmodStaged : Command Site := fun s =>
  match s.staged with
  | some (.file f) =>
    if validMode args.fileMode && mayChmod login f then
      ⟨0, false, { s with staged := some (.file { f with mode := args.fileMode }) }⟩
    else ⟨1, false, s⟩
  | _ => ⟨1, false, s⟩

def mayChown (owner : String) : Bool :=
  match login with
  | .root => machine.known owner
  | .user u => u.chowns owner

/-- `chown {owner} "$t"`, where an owner is given. -/
def chownLine : Command Site := fun s =>
  match args.owner with
  | none => ⟨0, false, s⟩
  | some owner =>
    if mayChown login machine owner then
      ⟨0, false, { s with staged := s.staged.map fun node => node.chown owner }⟩
    else ⟨1, false, s⟩

/-- `mv -f "$t" "$d"` -/
def mvStaged : Command Site := fun s =>
  match s.staged with
  | some (.file f) =>
    if login.may User.moves then
      match s.dest with
      | some (.directory held) =>
        ⟨0, false, { s with staged := none, dest := some (.directory (held ++ [some f])) }⟩
      | _ => ⟨0, false, { s with staged := none, dest := some (.file f) }⟩
    else ⟨1, false, s⟩
  | _ => ⟨1, false, s⟩

def installFallback : Command Site :=
  seq (orElse (check (isDir login)) (mkdirParents login machine))
    (andThen (andThen (andThen (catStaged login machine) (chmodStaged login args))
      (chownLine login machine args)) (mvStaged login))

end Line

/-- How an install ends. -/
structure Ending where
  ok : Bool
  site : Site

def Ending.of : Ended Failure Unit × Site → Ending
  | (.returned (), s) => ⟨true, s⟩
  | (_, s) => ⟨false, s⟩

section Command
variable (login : Login) (machine : Machine) (args : InstallArgs) (s : Site)

def byHelper : Ending := .of (install login machine args s)

def byFallback : Ending :=
  let r := installFallback login machine args s
  ⟨r.status = 0, r.state⟩

/-- `if [ -x {helper} ]; then exec {helper} host install ..; fi; {fallback}` -/
def installCommand (hasHelper : Bool) : Ending :=
  if hasHelper then byHelper login machine args s else byFallback login machine args s

end Command

/-- The modes of the directories down to that of the destination, those above it that were made too. -/
def Dirs.modes : Dirs → List Nat
  | .present mode => [mode]
  | .made above aboveMode mode => List.replicate above aboveMode ++ [mode]
  | .missing _ | .blocked => []

/-- Both succeed with the same destination and the same directories, or both fail with the destination
as it was. -/
def Agree (s : Site) (a b : Ending) : Prop :=
  (a.ok = true ∧ b.ok = true ∧ a.site.dest = b.site.dest ∧
      a.site.dirs.modes = b.site.dirs.modes) ∨
    (a.ok = false ∧ b.ok = false ∧ a.site.dest = s.dest ∧ b.site.dest = s.dest)

section Outcomes
variable {login : Login} {machine : Machine} {args : InstallArgs} {s : Site}

/-- The rename of the helper succeeds, once the rest has: `rename` as root takes no directory for the
destination, and `mv` puts no directory onto a file. -/
def Renames (login : Login) (staged dest : Option Node) : Prop :=
  match login with
  | .root => ∀ held, dest ≠ some (.directory held)
  | .user _ => ∀ held f, staged = some (.directory held) → dest ≠ some (.file f)

def HelperWorks (login : Login) (machine : Machine) (args : InstallArgs) (s : Site) : Prop :=
  (∃ s', Prepares login machine args s s') ∧ Renames login s.staged s.dest

/-- What stands at the destination once a node was moved onto it. -/
def arrived (node : Node) : Option Node → Node
  | some (.directory held) => .directory (held ++ [node.asHeld])
  | _ => node

/-- A file comes to its rename, unless a directory was in the place of the staging file. -/
theorem owned_stagedNode {content : String} {staged : Option Node} {node : Node}
    (h : stagedNode login args content staged = some node) :
    (∃ held held', staged = some (.directory held) ∧ owned args node = .directory held' ∧
        ∃ u, login = .user u) ∨
      ((∀ held, staged ≠ some (.directory held)) ∧
        ∃ mode, (validMode args.fileMode = true → mode = args.fileMode) ∧
          owned args node = owned args (.file ⟨content, "root", mode⟩)) := by
  have howned : ∀ held, owned args (.directory held) = .directory held := by
    intro held
    rw [owned]
    cases args.owner <;> rfl
  have hnone : ∀ held, none ≠ some (Node.directory held) := fun _ h => by cases h
  have hsome : ∀ f held, some (Node.file f) ≠ some (.directory held) := fun _ _ h => by cases h
  have hmode : validMode args.fileMode = true → args.fileMode % 0o10000 = args.fileMode := by
    intro hvalid
    exact Nat.mod_eq_of_lt (Nat.lt_succ_of_le (of_decide_eq_true hvalid))
  cases login with
  | root =>
    rcases staged with _ | f | _
    · exact .inr ⟨hnone, _, hmode, congrArg (owned args) (Option.some.inj h).symm⟩
    · exact .inr ⟨hsome f, _, hmode, congrArg (owned args) (Option.some.inj h).symm⟩
    · cases h
  | user u =>
    rcases staged with _ | f | held
    · simp only [stagedNode, Option.ite_none_right_eq_some] at h
      exact .inr ⟨hnone, _, fun _ => rfl, congrArg (owned args) (Option.some.inj h.2).symm⟩
    · simp only [stagedNode, Option.ite_none_right_eq_some] at h
      exact .inr ⟨hsome f, _, fun _ => rfl, congrArg (owned args) (Option.some.inj h.2).symm⟩
    · simp only [stagedNode, Option.ite_none_right_eq_some] at h
      have hnode : owned args node = _ := (congrArg (owned args) (Option.some.inj h.2).symm).trans
        (howned _)
      exact .inl ⟨held, _, rfl, hnode, u, rfl⟩

theorem owned_file (f : File) : ∃ g, owned args (.file f) = .file g := by
  rw [owned]
  cases args.owner with
  | none => exact ⟨f, rfl⟩
  | some owner => exact ⟨f.chown owner, rfl⟩

/-- The last step of the helper. -/
theorem renameElevated_apply {dirs : Dirs} {staged dest : Option Node} {content : String}
    {node : Node} (h : stagedNode login args content staged = some node) :
    (Renames login staged dest ∧
        renameElevated login ⟨dirs, some (owned args node), dest⟩ =
          (.returned (), ⟨dirs, none, some (arrived (owned args node) dest)⟩)) ∨
      (¬Renames login staged dest ∧ renameElevated login ⟨dirs, some (owned args node), dest⟩ =
        (.failed .internal, ⟨dirs, some (owned args node), dest⟩)) := by
  rcases owned_stagedNode h with ⟨held, held', hstaged, hnode, u, hlogin⟩ | ⟨hstaged, mode, -, hnode⟩
  · subst hlogin
    rw [hnode]
    rcases dest with _ | f | inner
    · exact .inl ⟨nofun, rfl⟩
    · exact .inr ⟨fun hfits => hfits held f hstaged rfl, rfl⟩
    · exact .inl ⟨nofun, by cases inner <;> rfl⟩
  · obtain ⟨g, hg⟩ := @owned_file args ⟨content, "root", mode⟩
    rw [hnode, hg]
    cases login with
    | root =>
      rcases dest with _ | f | inner
      · exact .inl ⟨nofun, rfl⟩
      · exact .inl ⟨nofun, rfl⟩
      · exact .inr ⟨fun hfits => hfits inner rfl, by cases inner <;> rfl⟩
    | user u =>
      have hfits : Renames (.user u) staged dest := fun held f hdir => absurd hdir (hstaged held)
      rcases dest with _ | f | inner
      · exact .inl ⟨hfits, rfl⟩
      · exact .inl ⟨hfits, rfl⟩
      · exact .inl ⟨hfits, by cases inner <;> rfl⟩

theorem byHelper_apply :
    (∃ content dirs node, HelperWorks login machine args s ∧ Reads login machine args content ∧
        madeDirs login machine args s.dirs = some dirs ∧
        stagedNode login args content s.staged = some node ∧
        byHelper login machine args s =
          ⟨true, ⟨dirs, none, some (arrived (owned args node) s.dest)⟩⟩) ∨
      (¬HelperWorks login machine args s ∧ (byHelper login machine args s).ok = false ∧
        (byHelper login machine args s).site.dest = s.dest) := by
  rw [byHelper]
  rcases @prepare_apply login machine args s with ⟨s', hrun, hprepares⟩ | ⟨e, s', hrun, hdest, hnot⟩
  · have hinstall : install login machine args s = renameElevated login s' := bind_returned hrun
    have hworks := hprepares
    obtain ⟨content, dirs, node, hreads, hdirs, hnode, hknown, rfl⟩ := hprepares
    rcases @renameElevated_apply login args dirs s.staged s.dest content node hnode with
      ⟨hfits, hrename⟩ | ⟨hfits, hrename⟩
    · rw [hinstall.trans hrename]
      exact .inl ⟨content, dirs, node, ⟨⟨_, hworks⟩, hfits⟩, hreads, hdirs, hnode, rfl⟩
    · rw [hinstall.trans hrename]
      exact .inr ⟨fun h => hfits h.2, rfl, rfl⟩
  · have hinstall : install login machine args s = (.failed e, s') := bind_failed hrun
    rw [hinstall]
    refine .inr ⟨fun h => ?_, rfl, hdest⟩
    obtain ⟨t, ht⟩ := h.1
    exact hnot t ht

/-- The directory of the destination that the line finds or makes. -/
def usableDirs (login : Login) (machine : Machine) : Dirs → Dirs
  | .missing above =>
    if login.may User.makes then .made above (aboveMode machine.umask) (unmasked machine.umask)
    else .missing above
  | dirs => dirs

/-- The staging file when the line moves it. -/
def filled (args : InstallArgs) (content : String) (f : File) : Node :=
  owned args (.file { f with content := content, mode := args.fileMode })

def FallbackWorks (login : Login) (machine : Machine) (args : InstallArgs) (s : Site)
    (content : String) (f : File) : Prop :=
  openedFile login machine { s with dirs := usableDirs login machine s.dirs } = some f ∧
    machine.source = .file content ∧ login.may User.readable = true ∧
    validMode args.fileMode = true ∧ mayChmod login f = true ∧
    (∀ owner, args.owner = some owner → mayChown login machine owner = true) ∧
    login.may User.moves = true

theorem parents_apply :
    (orElse (check (isDir login)) (mkdirParents login machine) s).returned = false ∧
      (orElse (check (isDir login)) (mkdirParents login machine) s).state =
        { s with dirs := usableDirs login machine s.dirs } := by
  obtain ⟨dirs, staged, dest⟩ := s
  cases dirs with
  | present mode =>
    by_cases hsees : login.may User.seesDir = true <;>
      simp [orElse, check, test, isDir, mkdirParents, usableDirs, hsees]
  | missing above =>
    by_cases hmakes : login.may User.makes = true <;>
      simp [orElse, check, test, isDir, mkdirParents, usableDirs, hmakes]
  | made | blocked => exact ⟨rfl, rfl⟩

theorem andThen_ok {a b : Command Site} {s' : Site} (h : a s = ⟨0, false, s'⟩) :
    andThen a b s = b s' := by
  rw [andThen, h]
  rfl

theorem andThen_fails {a b : Command Site} {s' : Site} (h : a s = ⟨1, false, s'⟩) :
    andThen a b s = ⟨1, false, s'⟩ := by
  rw [andThen, h]
  rfl

/-- The staging file is filled, or the line stops with the destination untouched. -/
theorem catStaged_apply :
    (∃ content f, openedFile login machine s = some f ∧ machine.source = .file content ∧
        login.may User.readable = true ∧ catStaged login machine s =
          ⟨0, false, { s with staged := some (.file { f with content := content }) }⟩) ∨
      ∃ s', catStaged login machine s = ⟨1, false, s'⟩ ∧ s'.dest = s.dest ∧
        ∀ content f, openedFile login machine s = some f → machine.source = .file content →
          login.may User.readable ≠ true := by
  rw [catStaged]
  cases hopened : openedFile login machine s with
  | none => exact .inr ⟨s, rfl, rfl, nofun⟩
  | some f =>
    cases hsource : machine.source with
    | missing | directory => exact .inr ⟨_, rfl, rfl, nofun⟩
    | file content =>
      by_cases hreadable : login.may User.readable = true
      · exact .inl ⟨content, f, rfl, rfl, hreadable, if_pos hreadable⟩
      · exact .inr ⟨_, if_neg hreadable, rfl, fun _ _ _ _ => hreadable⟩

theorem chmodStaged_apply (dirs : Dirs) (f : File) (dest : Option Node) :
    chmodStaged login args ⟨dirs, some (.file f), dest⟩ =
      if validMode args.fileMode && mayChmod login f then
        ⟨0, false, ⟨dirs, some (.file { f with mode := args.fileMode }), dest⟩⟩
      else ⟨1, false, ⟨dirs, some (.file f), dest⟩⟩ := rfl

theorem chownLine_apply (dirs : Dirs) (f : File) (dest : Option Node) :
    ((∀ owner, args.owner = some owner → mayChown login machine owner = true) ∧
        chownLine login machine args ⟨dirs, some (.file f), dest⟩ =
          ⟨0, false, ⟨dirs, some (owned args (.file f)), dest⟩⟩) ∨
      ((¬∀ owner, args.owner = some owner → mayChown login machine owner = true) ∧
        chownLine login machine args ⟨dirs, some (.file f), dest⟩ =
          ⟨1, false, ⟨dirs, some (.file f), dest⟩⟩) := by
  rw [chownLine, owned]
  cases args.owner with
  | none => exact .inl ⟨fun _ h => (by cases h), rfl⟩
  | some owner =>
    by_cases hmay : mayChown login machine owner = true
    · exact .inl ⟨fun _ h => Option.some.inj h ▸ hmay, if_pos hmay⟩
    · exact .inr ⟨fun h => hmay (h owner rfl), if_neg hmay⟩

theorem mvStaged_apply (dirs : Dirs) (f : File) (dest : Option Node) :
    mvStaged login ⟨dirs, some (.file f), dest⟩ =
      if login.may User.moves = true then ⟨0, false, ⟨dirs, none, some (arrived (.file f) dest)⟩⟩
      else ⟨1, false, ⟨dirs, some (.file f), dest⟩⟩ := by
  rcases dest with _ | _ | _ <;> rfl

theorem byFallback_apply :
    (∃ content f, FallbackWorks login machine args s content f ∧
        byFallback login machine args s = ⟨true, ⟨usableDirs login machine s.dirs, none,
          some (arrived (filled args content f) s.dest)⟩⟩) ∨
      ((∀ content f, ¬FallbackWorks login machine args s content f) ∧
        (byFallback login machine args s).ok = false ∧
        (byFallback login machine args s).site.dest = s.dest) := by
  rw [byFallback, installFallback, seq_apply parents_apply.1, parents_apply.2]
  rcases @catStaged_apply login machine { s with dirs := usableDirs login machine s.dirs } with
    ⟨content, f, hopened, hsource, hreadable, hcat⟩ | ⟨s', hcat, hdest, hnot⟩
  · by_cases hmode : (validMode args.fileMode && mayChmod login f) = true
    · have hchmod := (@chmodStaged_apply login args
        (usableDirs login machine s.dirs) { f with content := content } s.dest).trans (if_pos hmode)
      rcases @chownLine_apply login machine args
        (usableDirs login machine s.dirs) { f with content := content, mode := args.fileMode } s.dest
        with ⟨hmay, hchown⟩ | ⟨hmay, hchown⟩
      · obtain ⟨g, hg⟩ := @owned_file args { f with content := content, mode := args.fileMode }
        rw [hg] at hchown
        have hfilled : filled args content f = .file g := hg
        rw [andThen_ok ((andThen_ok ((andThen_ok hcat).trans hchmod)).trans hchown), mvStaged_apply]
        by_cases hmoves : login.may User.moves = true
        · rw [if_pos hmoves]
          refine .inl ⟨content, f, ⟨hopened, hsource, hreadable, (Bool.and_eq_true_iff.mp hmode).1,
            (Bool.and_eq_true_iff.mp hmode).2, hmay, hmoves⟩, ?_⟩
          rw [hfilled]
          rfl
        · rw [if_neg hmoves]
          exact .inr ⟨fun _ _ h => hmoves h.2.2.2.2.2.2, rfl, rfl⟩
      · rw [andThen_fails ((andThen_ok ((andThen_ok hcat).trans hchmod)).trans hchown)]
        exact .inr ⟨fun _ _ h => hmay h.2.2.2.2.2.1, rfl, rfl⟩
    · have hchmod := (@chmodStaged_apply login args
        (usableDirs login machine s.dirs) { f with content := content } s.dest).trans (if_neg hmode)
      rw [andThen_fails (andThen_fails ((andThen_ok hcat).trans hchmod))]
      refine .inr ⟨fun content' f' h => ?_, rfl, rfl⟩
      cases hopened.symm.trans h.1
      exact hmode (Bool.and_eq_true_iff.mpr ⟨h.2.2.2.1, h.2.2.2.2.1⟩)
  · rw [andThen_fails (andThen_fails (andThen_fails hcat))]
    exact .inr ⟨fun content f h => hnot content f h.1 h.2.1 h.2.2.1, rfl, hdest⟩

/-- The owner of the staging file before `chown`, when the line has filled it. -/
def firstOwner (login : Login) (staged : Option Node) : String :=
  match staged with
  | some (.file f) => f.owner
  | _ => login.userName

/-- The owner that is given names a user, or the file is root's without. -/
def SameOwner (login : Login) (args : InstallArgs) (s : Site) : Prop :=
  (args.owner.bind ownerUser).isSome ∨ firstOwner login s.staged = "root"

/-- The directories that are made get the same modes. -/
def SameDirs (login : Login) (machine : Machine) (args : InstallArgs) (s : Site) : Prop :=
  ∀ above, s.dirs = .missing above →
    match login with
    | .root => above = 0 ∨ unmasked machine.umask = aboveMode machine.umask
    | .user _ => args.parentMode = unmasked machine.umask ∧
        (above = 0 ∨ 0o755 = aboveMode machine.umask)

theorem owned_eq_iff {content owner owner' : String} {mode : Nat} :
    owned args (.file ⟨content, owner, mode⟩) = owned args (.file ⟨content, owner', mode⟩) ↔
      (args.owner.bind ownerUser).isSome ∨ owner = owner' := by
  rw [owned, owned]
  cases args.owner with
  | none => simp
  | some given => cases huser : ownerUser given <;> simp [Node.chown, File.chown, huser]

theorem arrived_inj {f g : File} {dest : Option Node} :
    arrived (.file f) dest = arrived (.file g) dest ↔ f = g := by
  rcases dest with _ | _ | held
  · simp [arrived]
  · simp [arrived]
  · simp [arrived, Node.asHeld]

theorem replicate_concat_inj {n a b m m' : Nat} :
    List.replicate n a ++ [m] = List.replicate n b ++ [m'] ↔ m = m' ∧ (n = 0 ∨ a = b) := by
  constructor
  · intro h
    obtain ⟨habove, hlast⟩ := List.append_inj' h rfl
    exact ⟨List.singleton_inj.mp hlast, (List.replicate_inj.mp habove).2⟩
  · intro h
    rw [h.1, List.replicate_inj.mpr ⟨rfl, h.2⟩]

/-- The line can open the staging file only where no directory is in its place. -/
theorem openedFile_owner {f : File} (h : openedFile login machine s = some f) :
    isDir login s = true ∧ (∀ held, s.staged ≠ some (.directory held)) ∧
      f.owner = firstOwner login s.staged := by
  rw [openedFile] at h
  by_cases hdir : isDir login s = true
  · rw [if_pos hdir] at h
    cases hstaged : s.staged with
    | none =>
      rw [hstaged] at h
      obtain ⟨-, hfile⟩ := Option.ite_none_right_eq_some.mp h
      cases hfile
      exact ⟨hdir, nofun, rfl⟩
    | some node =>
      cases node with
      | file g =>
        rw [hstaged] at h
        obtain ⟨-, hfile⟩ := Option.ite_none_right_eq_some.mp h
        cases hfile
        exact ⟨hdir, nofun, rfl⟩
      | directory held =>
        rw [hstaged] at h
        cases h
  · rw [if_neg hdir] at h
    cases h

theorem sameDirs_iff {dirs : Dirs} (hmade : madeDirs login machine args s.dirs = some dirs)
    (husable : isDir login { s with dirs := usableDirs login machine s.dirs } = true) :
    dirs.modes = (usableDirs login machine s.dirs).modes ↔ SameDirs login machine args s := by
  rw [SameDirs]
  cases hdirs : s.dirs with
  | blocked =>
    rw [hdirs] at hmade
    cases hmade
  | made above aboveMode mode =>
    rw [hdirs] at hmade
    cases hmade
    exact ⟨fun _ _ h => (by cases h), fun _ => rfl⟩
  | present old =>
    rw [hdirs] at husable hmade
    have hsees : login.may User.seesDir = true := husable
    rw [madeDirs, if_pos hsees] at hmade
    cases hmade
    exact ⟨fun _ _ h => (by cases h), fun _ => rfl⟩
  | missing above =>
    rw [hdirs] at husable hmade
    by_cases hmakes : login.may User.makes = true
    · rw [usableDirs, if_pos hmakes, Dirs.modes]
      cases login with
      | root =>
        cases hmade
        rw [Dirs.modes, replicate_concat_inj]
        constructor
        · intro h above' heq
          cases heq
          exact h.2
        · intro h
          exact ⟨rfl, h above rfl⟩
      | user u =>
        obtain ⟨-, hmade⟩ := Option.ite_none_right_eq_some.mp hmade
        rw [← Option.some.inj hmade, Dirs.modes, replicate_concat_inj]
        constructor
        · intro h above' heq
          cases heq
          exact h
        · intro h
          exact h above rfl
    · rw [usableDirs, if_neg hmakes] at husable
      cases husable

/-- Where both succeed, they leave the same exactly if the modes and the owner come out the same. -/
theorem both_agree {content content' : String} {dirs : Dirs} {node : Node} {f : File}
    (hreads : Reads login machine args content)
    (hdirs : madeDirs login machine args s.dirs = some dirs)
    (hnode : stagedNode login args content s.staged = some node)
    (hf : FallbackWorks login machine args s content' f) :
    (some (arrived (owned args node) s.dest) = some (arrived (filled args content' f) s.dest) ∧
        dirs.modes = (usableDirs login machine s.dirs).modes) ↔
      SameDirs login machine args s ∧ SameOwner login args s := by
  obtain ⟨hopened, hsource, -, hvalid, -⟩ := hf
  obtain ⟨hdir, hstaged, howner⟩ := openedFile_owner hopened
  rw [sameDirs_iff hdirs hdir, and_comm]
  refine and_congr_right fun _ => ?_
  rcases owned_stagedNode hnode with ⟨held, -, hheld, -⟩ | ⟨-, mode, hmode, hfile⟩
  · exact absurd hheld (hstaged held)
  · have hcontent : content = content' := by
      cases hreads.2.2.2.symm.trans hsource
      rfl
    have hsame : owned args node = filled args content' f ↔ SameOwner login args s := by
      rw [hfile, filled, hmode hvalid, hcontent, owned_eq_iff, SameOwner, howner]
      exact or_congr_right eq_comm
    rw [← hsame, Option.some.injEq]
    obtain ⟨g, hg⟩ := @owned_file args ⟨content, "root", mode⟩
    obtain ⟨g', hg'⟩ := @owned_file args { f with content := content', mode := args.fileMode }
    rw [hfile, hg, filled, hg', arrived_inj, Node.file.injEq]

/-- The two ways agree exactly if both fail, or both succeed, the directories they make get the same
modes, and the file the same owner. -/
theorem agree_iff (login : Login) (machine : Machine) (args : InstallArgs) (s : Site) :
    Agree s (installCommand login machine args s true) (installCommand login machine args s false) ↔
      (HelperWorks login machine args s ↔ ∃ content f, FallbackWorks login machine args s content f) ∧
        (HelperWorks login machine args s → SameDirs login machine args s ∧ SameOwner login args s) := by
  have hhelper : installCommand login machine args s true = byHelper login machine args s := rfl
  have hfallback : installCommand login machine args s false = byFallback login machine args s := rfl
  rw [hhelper, hfallback]
  rcases @byHelper_apply login machine args s with
    ⟨content, dirs, node, hworks, hreads, hdirs, hnode, hend⟩ | ⟨hnot, hok, hdest⟩
  · rcases @byFallback_apply login machine args s with ⟨content', f, hf, hend'⟩ | ⟨hnot', hok', -⟩
    · rw [hend, hend']
      have hagree := both_agree hreads hdirs hnode hf
      constructor
      · intro h
        rcases h with ⟨-, -, hdest, hmodes⟩ | ⟨hfalse, -⟩
        · exact ⟨⟨fun _ => ⟨content', f, hf⟩, fun _ => hworks⟩, fun _ => hagree.mp ⟨hdest, hmodes⟩⟩
        · cases hfalse
      · intro h
        obtain ⟨hdest, hmodes⟩ := hagree.mpr (h.2 hworks)
        exact .inl ⟨rfl, rfl, hdest, hmodes⟩
    · rw [hend]
      constructor
      · intro h
        rcases h with ⟨-, htrue, -⟩ | ⟨hfalse, -⟩
        · cases hok'.symm.trans htrue
        · cases hfalse
      · intro h
        obtain ⟨content', f, hf⟩ := h.1.mp hworks
        exact absurd hf (hnot' content' f)
  · rcases @byFallback_apply login machine args s with ⟨content', f, hf, hend'⟩ | ⟨hnot', hok', hdest'⟩
    · rw [hend']
      constructor
      · intro h
        rcases h with ⟨htrue, -⟩ | ⟨-, hfalse, -⟩
        · cases hok.symm.trans htrue
        · cases hfalse
      · intro h
        exact absurd (h.1.mpr ⟨content', f, hf⟩) hnot
    · constructor
      · intro _
        refine ⟨⟨fun h => absurd h hnot, fun h => ?_⟩, fun h => absurd h hnot⟩
        obtain ⟨content', f, hf⟩ := h
        exact absurd hf (hnot' content' f)
      · intro _
        exact .inr ⟨hok, hok', hdest, hdest'⟩

end Outcomes

section Deploy

/-- A login that may read the source and look into the directory of root. -/
def deployUser : User where
  name := "deploy"
  visible := true
  readable := true
  seesDir := true
  unlinks := false
  creates := false
  opens := false
  makes := false
  moves := false
  chowns _ := false
  keeps := nofun

def unitArgs : InstallArgs := ⟨"/tmp/app.service", "/etc/systemd/system/app.service", none, none, none⟩

def unitSite : Site := ⟨.present 0o755, none, none⟩

/-- The line does not elevate: it cannot write where the helper can. -/
theorem fallback_fails_unelevated :
    ¬∀ (login : Login) (machine : Machine) (args : InstallArgs) (s : Site),
      Agree s (installCommand login machine args s true)
        (installCommand login machine args s false) := by
  intro hall
  rcases hall (.user deployUser) ⟨0o022, .file "[Unit]", fun _ => true⟩ unitArgs unitSite with
    ⟨-, hfallback, -⟩ | ⟨hhelper, -⟩
  · exact absurd hfallback (by decide)
  · exact absurd hhelper (by decide)

end Deploy

end Shellflow.Elevated
