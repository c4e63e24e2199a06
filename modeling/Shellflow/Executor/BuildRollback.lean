import Mathlib.Logic.Function.Basic
import Shellflow.Dsl.Plan
import Shellflow.Executor.Placement
import Shellflow.Lib.AndOr

/-! The end of the build script: the new binaries are installed, the units that ran are restarted, and
a unit that fails rolls the binaries back. -/
namespace Shellflow.Build
open AndOr

/-- What stands at an install path: a file, or a directory with what was moved into it. -/
inductive Node where
  | file (content : String)
  | directory (moved : List String)
deriving DecidableEq, Repr

/-- `"$d/$nm"` -/
abbrev Key := String × String

/-- One round of the two loops: an artifact and a directory. -/
structure Slot where
  name : String
  full : String
  dir : String
deriving DecidableEq, Repr

def Slot.key (slot : Slot) : Key := (slot.dir, slot.name)

/-- The files that the script moves: at the install paths, their copies `"$d/.$nm.new"` and
`"$d/.$nm.rollback"`, and the backups `"$BK/$nm"`. -/
structure Files where
  installed : Key → Option Node
  staged : Key → Option String
  restoring : Key → Option String
  backup : String → Option String

inductive Act where
  | makeDir (dir : String)
  | makeBackupDir (name : String)
  | backUp (key : Key)
  | stage (key : Key)
  | install (key : Key)
  | chmod (key : Key)
  | fetch (key : Key)
  | restore (key : Key)
deriving DecidableEq, Repr

/-- The target: whether there is a `sudo`, what succeeds with it and without it, which paths the
login can look at, the files of the build, and how `systemctl` answers in each round. -/
structure Machine where
  tdir : String
  dest : String
  hasSudo : Bool
  elevated : Act → Bool
  direct : Act → Bool
  sees : Key → Bool
  seesBackup : String → Bool
  built : String → Option String
  active : String → Bool
  was : Nat → Bool
  restart : Nat → Bool
  poll : Nat → Nat → Bool
  again : Nat → Bool

section Slots
variable (m : Machine)

/-- `case "$a" in *=*) src="${a%%=*}"; nm="${a#*=}";; *) src="$a"; nm=$(basename "$a");; esac` -/
def sourceAndName (artifact : String) : String × String :=
  (Str.splitOnce artifact "=").getD (artifact, baseName (Placement.trimSlashes artifact))

/-- `case "$src" in target/*) full="$TDIR/${src#target/}";; *) full="$DEST/$src";; esac` -/
def fullPath (src : String) : String :=
  match Str.stripPrefix src "target/" with
  | some rest => m.tdir ++ "/" ++ rest
  | none => m.dest ++ "/" ++ src

def slots (build : BuildStep) : List Slot :=
  build.artifacts.flatMap fun artifact =>
    let (src, name) := sourceAndName artifact
    build.installDirs.map fun dir => ⟨name, fullPath m src, dir⟩

end Slots

section Effects

/-- A directory takes in what is moved onto it. -/
def place (content : String) : Option Node → Node
  | some (.directory moved) => .directory (moved ++ [content])
  | _ => .file content

def contentOf : Option Node → Option String
  | some (.file content) => some content
  | _ => none

variable (m : Machine) (slot : Slot) (s : Files)

/-- `cp -f "$d/$nm" "$BK/$nm"` -/
def backUp : Option Files :=
  (contentOf (s.installed slot.key)).map fun content =>
    { s with backup := Function.update s.backup slot.name (some content) }

/-- `cp -f "$full" "$d/.$nm.new"` -/
def stage : Option Files :=
  (m.built slot.full).map fun content =>
    { s with staged := Function.update s.staged slot.key (some content) }

/-- `mv -f "$d/.$nm.new" "$d/$nm"` -/
def install : Option Files :=
  (s.staged slot.key).map fun content =>
    { s with
      staged := Function.update s.staged slot.key none
      installed := Function.update s.installed slot.key
        (some (place content (s.installed slot.key))) }

/-- `cp -f "$BK/$nm" "$d/.$nm.rollback"` -/
def fetch : Option Files :=
  (s.backup slot.name).map fun content =>
    { s with restoring := Function.update s.restoring slot.key (some content) }

/-- `mv -f "$d/.$nm.rollback" "$d/$nm"` -/
def restore : Option Files :=
  (s.restoring slot.key).map fun content =>
    { s with
      restoring := Function.update s.restoring slot.key none
      installed := Function.update s.installed slot.key
        (some (place content (s.installed slot.key))) }

end Effects

section Script
variable (m : Machine)

def attempt (allowed : Bool) (effect : Files → Option Files) : Command Files := fun s =>
  if allowed then
    match effect s with
    | some s' => ⟨0, false, s'⟩
    | none => ⟨1, false, s⟩
  else ⟨1, false, s⟩

/-- `sudo X 2>/dev/null || X` -/
def either (act : Act) (effect : Files → Option Files) : Command Files :=
  orElse (attempt (m.hasSudo && m.elevated act) effect) (attempt (m.direct act) effect)

/-- `X || exit 1` -/
def orExit {σ : Type} (command : Command σ) : Command σ := orElse command (ret 1)

/-- `[ -f "$d/$nm" ] && { .. }` -/
def backupSlot (slot : Slot) : Command Files :=
  andThen (check fun s => m.sees slot.key && (contentOf (s.installed slot.key)).isSome)
    (seq (either m (.makeBackupDir slot.name) some)
      (orExit (either m (.backUp slot.key) (backUp slot))))

/-- The body of the install loops. -/
def installSlot (slot : Slot) : Command Files :=
  seq (orExit (either m (.makeDir slot.dir) some)) <|
  seq (backupSlot m slot) <|
  seq (orExit (either m (.stage slot.key) (stage m slot))) <|
  seq (orExit (either m (.install slot.key) (install slot)))
    (orExit (either m (.chmod slot.key) some))

/-- The body of the loops of `sfw_rollback`; `continue` ends it. -/
def rollbackSlot (slot : Slot) : Command Files :=
  call (ifThen (check fun s => m.seesBackup slot.name && (s.backup slot.name).isSome)
    (seq (orElse (either m (.fetch slot.key) (fetch slot)) (ret 0))
      (orElse (either m (.restore slot.key) (restore slot)) (ret 0))))

inductive UnitEvent where
  | started (unit : String)
  | rolledBack
deriving DecidableEq, Repr

structure Progress where
  files : Files
  log : List UnitEvent

def onFiles (command : Command Files) : Command Progress := fun s =>
  let r := command s.files
  ⟨r.status, r.returned, { s with files := r.state }⟩

/-- `sudo systemctl restart "$u"` -/
def restartUnit (answer : Bool) (unit : String) : Command Progress := fun s =>
  if m.hasSudo && answer then ⟨0, false, { s with log := s.log ++ [.started unit] }⟩
  else ⟨1, false, s⟩

def sfwRollback (build : BuildStep) : Command Progress :=
  seq (onFiles (forEach (rollbackSlot m) (slots m build)))
    fun s => ⟨0, false, { s with log := s.log ++ [.rolledBack] }⟩

/-- One of 30 polls finds the unit active. -/
def cameBack (k : Nat) : Bool := (List.range 30).any fun i => m.hasSudo && m.poll k i

def unitRound (build : BuildStep) (k : Nat) (unit : String) : Command Progress :=
  ifThen (test (m.was k)) <|
    seq (ifElse (restartUnit m (m.restart k) unit) ok (seq (sfwRollback m build) (ret 1)))
      (ifElse (test (cameBack m k)) ok
        (seq (sfwRollback m build) (seq (restartUnit m (m.again k) unit) (ret 1))))

def unitsFrom (build : BuildStep) : Nat → List String → Command Progress
  | _, [] => ok
  | k, unit :: rest => seq (unitRound m build k unit) (unitsFrom build (k + 1) rest)

def buildCommand (build : BuildStep) : Command Progress :=
  seq (onFiles (forEach (installSlot m) (slots m build))) (unitsFrom m build 0 build.units)

end Script

section Install
variable {m : Machine} {act : Act} {effect : Files → Option Files} {s : Files} {slot : Slot}

/-- With `sudo` or without. -/
def Machine.allows (m : Machine) (act : Act) : Bool := (m.hasSudo && m.elevated act) || m.direct act

theorem either_apply : either m act effect s = attempt (m.allows act) effect s := by
  rw [either, orElse, Machine.allows]
  cases m.hasSudo && m.elevated act <;> cases m.direct act <;> cases heffect : effect s <;>
    simp [attempt, heffect]

/-- A command that does not lead to an exit took effect. -/
theorem orExit_stays (h : (orExit (either m act effect) s).returned = false) :
    ∃ s', effect s = some s' ∧ orExit (either m act effect) s = ⟨0, false, s'⟩ := by
  rw [orExit, orElse, either_apply, attempt] at h ⊢
  cases hallows : m.allows act with
  | false =>
    rw [hallows] at h
    cases h
  | true =>
    cases heffect : effect s with
    | none =>
      rw [hallows, heffect] at h
      cases h
    | some s' => exact ⟨s', rfl, rfl⟩

theorem either_state (act : Act) (s : Files) :
    (either m act some s).returned = false ∧ (either m act some s).state = s := by
  rw [either_apply, attempt]
  cases m.allows act <;> exact ⟨rfl, rfl⟩

/-- The backups after a round of the install loops. -/
def backedUp (m : Machine) (slot : Slot) (s : Files) : String → Option String :=
  match contentOf (s.installed slot.key) with
  | some content =>
    if m.sees slot.key then Function.update s.backup slot.name (some content) else s.backup
  | none => s.backup

theorem backupSlot_stays (h : (backupSlot m slot s).returned = false) :
    (backupSlot m slot s).state = { s with backup := backedUp m slot s } := by
  rw [backupSlot, andThen, check, test] at h ⊢
  rw [backedUp]
  dsimp only at h ⊢
  cases hcontent : contentOf (s.installed slot.key) with
  | none => cases m.sees slot.key <;> rfl
  | some content =>
    cases hsees : m.sees slot.key with
    | false => rfl
    | true =>
      rw [hcontent, hsees] at h
      obtain ⟨hdir, hcopy⟩ := stays_of_seq h
      have hsame : (either m (.makeBackupDir slot.name) some s).state = s := (either_state _ _).2
      rw [hsame] at hcopy
      obtain ⟨s', hs', hrun⟩ := orExit_stays hcopy
      rw [backUp, hcontent] at hs'
      cases hs'
      have hseq := seq_apply (b := orExit (either m (.backUp slot.key) (backUp slot))) hdir
      rw [hsame, hrun] at hseq
      exact congrArg Result.state hseq

theorem installSlot_stays (h : (installSlot m slot s).returned = false) :
    ∃ content, m.built slot.full = some content ∧
      (installSlot m slot s).state.installed =
        Function.update s.installed slot.key (some (place content (s.installed slot.key))) ∧
      (installSlot m slot s).state.backup = backedUp m slot s := by
  rw [installSlot] at h ⊢
  obtain ⟨hdir, h⟩ := stays_of_seq h
  rw [seq_apply hdir]
  obtain ⟨s₁, hs₁, hrun₁⟩ := orExit_stays hdir
  cases hs₁
  rw [hrun₁] at h ⊢
  obtain ⟨hbackup, h⟩ := stays_of_seq h
  rw [seq_apply hbackup]
  rw [backupSlot_stays hbackup] at h ⊢
  obtain ⟨hstage, h⟩ := stays_of_seq h
  rw [seq_apply hstage]
  obtain ⟨s₂, hs₂, hrun₂⟩ := orExit_stays hstage
  rw [hrun₂] at h ⊢
  obtain ⟨content, hbuilt, hs₂⟩ := Option.map_eq_some_iff.mp hs₂
  obtain ⟨hinstall, h⟩ := stays_of_seq h
  rw [seq_apply hinstall]
  obtain ⟨s₃, hs₃, hrun₃⟩ := orExit_stays hinstall
  rw [hrun₃] at h ⊢
  obtain ⟨s₄, hs₄, hrun₄⟩ := orExit_stays h
  rw [hrun₄]
  cases hs₄
  subst hs₂
  rw [install] at hs₃
  dsimp only at hs₃
  rw [Function.update_self] at hs₃
  cases hs₃
  exact ⟨content, hbuilt, rfl, rfl⟩

/-- What stands at a path once the slots are installed; the latest slot comes first. -/
def standing (m : Machine) (start : Key → Option Node) : List Slot → Key → Option Node
  | [], key => start key
  | slot :: earlier, key =>
    if slot.key = key then
      some (place ((m.built slot.full).getD "") (standing m start earlier key))
    else standing m start earlier key

/-- The backup of a name: of the latest path that was a file which the login sees. -/
def saved (m : Machine) (start : Files) : List Slot → String → Option String
  | [], name => start.backup name
  | slot :: earlier, name =>
    match contentOf (standing m start.installed earlier slot.key) with
    | some content =>
      if slot.name = name ∧ m.sees slot.key then some content else saved m start earlier name
    | none => saved m start earlier name

/-- The files after some slots. -/
def After (m : Machine) (start : Files) (earlier : List Slot) (s : Files) : Prop :=
  s.installed = standing m start.installed earlier ∧ s.backup = saved m start earlier

theorem after_installSlot {start : Files} (earlier : List Slot) (slot : Slot) (s : Files)
    (hs : After m start earlier s) (h : (installSlot m slot s).returned = false) :
    After m start (slot :: earlier) (installSlot m slot s).state := by
  obtain ⟨content, hbuilt, hinstalled, hbackup⟩ := installSlot_stays h
  constructor
  · rw [hinstalled, hs.1]
    funext key
    rw [standing, hbuilt, Option.getD_some]
    by_cases hkey : slot.key = key
    · subst hkey
      rw [Function.update_self, if_pos rfl]
    · rw [Function.update_of_ne (Ne.symm hkey), if_neg hkey]
  · rw [hbackup, backedUp, hs.1, hs.2]
    funext name
    rw [saved]
    cases contentOf (standing m start.installed earlier slot.key) with
    | none => rfl
    | some content =>
      dsimp only
      by_cases hsees : m.sees slot.key = true
      · rw [if_pos hsees]
        by_cases hname : slot.name = name
        · subst hname
          rw [Function.update_self, if_pos ⟨rfl, hsees⟩]
        · rw [Function.update_of_ne (Ne.symm hname), if_neg fun hboth => hname hboth.1]
      · rw [if_neg hsees, if_neg fun hboth => hsees hboth.2]

/-- The installation, once it has come to its end. -/
theorem after_install (l : List Slot) (start : Files)
    (h : (forEach (installSlot m) l start).returned = false) :
    After m start l.reverse (forEach (installSlot m) l start).state := by
  rw [← List.append_nil l.reverse]
  exact forEach_stays (fun earlier slot s => after_installSlot earlier slot s) l ⟨rfl, rfl⟩ h

end Install

section Rollback
variable {m : Machine} {s : Files} {slot : Slot} {key : Key} {l : List Slot}

/-- The copies of the rollback succeed. -/
def Copies (m : Machine) : Prop :=
  ∀ key, m.allows (.fetch key) = true ∧ m.allows (.restore key) = true

/-- The backup that the rollback finds under a name. -/
def rolled (m : Machine) (backup : String → Option String) (name : String) : Option String :=
  if m.seesBackup name then backup name else none

theorem rollbackSlot_apply (hcopies : Copies m) :
    (rollbackSlot m slot s).returned = false ∧
    (rollbackSlot m slot s).state.backup = s.backup ∧
    (rollbackSlot m slot s).state.installed =
      match rolled m s.backup slot.name with
      | some content =>
        Function.update s.installed slot.key (some (place content (s.installed slot.key)))
      | none => s.installed := by
  refine ⟨rfl, ?_⟩
  rw [rollbackSlot, call, rolled]
  cases hsees : m.seesBackup slot.name with
  | false => simp [ifThen, ifElse, check, test, ok]
  | true =>
    cases hbackup : s.backup slot.name with
    | none => simp [ifThen, ifElse, check, test, hbackup, ok]
    | some content =>
      simp [ifThen, ifElse, check, test, hbackup, seq, orElse, either_apply, attempt,
        (hcopies slot.key).1, (hcopies slot.key).2, fetch, restore]

/-- How much a directory took in. -/
def held : Option Node → Option Nat
  | some (.directory moved) => some moved.length
  | _ => none

theorem held_place (content : String) (node : Option Node) :
    held (some (place content node)) = (held node).map (· + 1) := by
  rcases node with _ | _ | moved
  · rfl
  · rfl
  · simp [place, held]

theorem place_of_held {node : Option Node} (h : held node = none) (content : String) :
    place content node = .file content := by
  rcases node with _ | _ | moved
  · rfl
  · rfl
  · cases h

theorem held_standing (m : Machine) (start : Key → Option Node) (l : List Slot) (key : Key) :
    held (standing m start l key) = (held (start key)).map (· + (l.map Slot.key).count key) := by
  induction l with
  | nil => simp [standing]
  | cons slot l ih =>
    rw [standing, List.map_cons, List.count_cons]
    by_cases hkey : slot.key = key
    · rw [if_pos hkey, held_place, ih, if_pos (beq_iff_eq.mpr hkey), Option.map_map]
      rfl
    · rw [if_neg hkey, ih, if_neg fun h => hkey (beq_iff_eq.mp h), Nat.add_zero]

theorem standing_file {start : Key → Option Node} (hheld : held (start key) = none)
    (hmem : key ∈ l.map Slot.key) : ∃ content, standing m start l key = some (.file content) := by
  induction l with
  | nil => cases hmem
  | cons slot l ih =>
    rw [standing]
    by_cases hkey : slot.key = key
    · rw [if_pos hkey, place_of_held]
      · exact ⟨_, rfl⟩
      · rw [held_standing, hheld]
        rfl
    · rw [if_neg hkey]
      exact ih ((List.mem_cons.mp hmem).resolve_left fun h => hkey h.symm)

/-- What the rollback does at one path. -/
structure RolledBack (m : Machine) (l : List Slot) (key : Key) (s s' : Files) : Prop where
  backup : s'.backup = s.backup
  kept : key ∉ l.map Slot.key ∨ rolled m s.backup key.2 = none →
    s'.installed key = s.installed key
  file : ∀ content, key ∈ l.map Slot.key → rolled m s.backup key.2 = some content →
    held (s.installed key) = none → s'.installed key = some (.file content)
  held : ∃ n, held (s'.installed key) = (held (s.installed key)).map (· + n)

theorem RolledBack.refl (key : Key) (s : Files) : RolledBack m [] key s s where
  backup := rfl
  kept _ := rfl
  file _ hmem := absurd hmem List.not_mem_nil
  held := ⟨0, by simp⟩

theorem rolledBack_slot (hcopies : Copies m) (slot : Slot) (key : Key) (s : Files) :
    RolledBack m [slot] key s (rollbackSlot m slot s).state := by
  obtain ⟨-, hbackup, hinstalled⟩ := @rollbackSlot_apply m s slot hcopies
  by_cases hkey : slot.key = key
  · subst hkey
    cases hrolled : rolled m s.backup slot.name with
    | none =>
      rw [hrolled] at hinstalled
      refine ⟨hbackup, fun _ => congrFun hinstalled _, fun content _ hsome => ?_, 0, ?_⟩
      · cases hrolled.symm.trans hsome
      · rw [hinstalled]
        simp
    | some content =>
      rw [hrolled] at hinstalled
      have hself : (rollbackSlot m slot s).state.installed slot.key =
          some (place content (s.installed slot.key)) := by
        rw [hinstalled]
        exact Function.update_self ..
      refine ⟨hbackup, fun hkept => ?_, fun content' _ hsome hheld => ?_, 1, ?_⟩
      · rcases hkept with hnot | hnone
        · exact absurd (List.mem_singleton_self _) hnot
        · cases hrolled.symm.trans hnone
      · cases hrolled.symm.trans hsome
        rw [hself, place_of_held hheld]
      · rw [hself, held_place]
  · have hother : (rollbackSlot m slot s).state.installed key = s.installed key := by
      rw [hinstalled]
      split
      · exact Function.update_of_ne (Ne.symm hkey) ..
      · rfl
    refine ⟨hbackup, fun _ => hother, fun content hmem => ?_, 0, ?_⟩
    · exact absurd (List.mem_singleton.mp hmem).symm hkey
    · rw [hother]
      simp

theorem RolledBack.trans {s₁ s₂ s₃ : Files} (h : RolledBack m [slot] key s₁ s₂)
    (h' : RolledBack m l key s₂ s₃) : RolledBack m (slot :: l) key s₁ s₃ where
  backup := h'.backup.trans h.backup
  kept hkept := by
    refine (h'.kept ?_).trans (h.kept ?_)
    · rw [h.backup]
      exact hkept.imp_left fun hnot hmem => hnot (List.mem_cons_of_mem _ hmem)
    · exact hkept.imp_left fun hnot hmem => hnot (List.mem_append_left _ hmem)
  file content hmem hrolled hheld := by
    have hrolled' : rolled m s₂.backup key.2 = some content := by
      rw [h.backup]
      exact hrolled
    by_cases hhere : key ∈ [slot].map Slot.key
    · have hfile := h.file content hhere hrolled hheld
      by_cases hlater : key ∈ l.map Slot.key
      · exact h'.file content hlater hrolled' (by rw [hfile]; rfl)
      · rw [h'.kept (.inl hlater), hfile]
    · have hkept := h.kept (.inl hhere)
      refine h'.file content ?_ hrolled' (by rw [hkept]; exact hheld)
      exact (List.mem_cons.mp hmem).resolve_left fun heq => hhere (List.mem_singleton.mpr heq)
  held := by
    obtain ⟨n, hn⟩ := h.held
    obtain ⟨n', hn'⟩ := h'.held
    refine ⟨n + n', ?_⟩
    rw [hn', hn, Option.map_map]
    exact congrArg (fun f => Option.map f _) (funext fun k => Nat.add_assoc k n n')

theorem rolledBack_all (hcopies : Copies m) (l : List Slot) (s : Files) :
    (forEach (rollbackSlot m) l s).returned = false ∧
      ∀ key, RolledBack m l key s (forEach (rollbackSlot m) l s).state := by
  induction l generalizing s with
  | nil => exact ⟨rfl, fun key => .refl key s⟩
  | cons slot l ih =>
    have hslot := @rollbackSlot_apply m s slot hcopies
    rw [forEach, seq_apply hslot.1]
    obtain ⟨hstays, hrest⟩ := ih (rollbackSlot m slot s).state
    exact ⟨hstays, fun key => (rolledBack_slot hcopies slot key s).trans (hrest key)⟩

/-- What the path held before is what the rollback puts there; where it finds no backup, the new
binary stays. -/
def Restorable (m : Machine) (start : Files) (l : List Slot) (key : Key) : Prop :=
  ∃ content, start.installed key = some (.file content) ∧
    match rolled m (saved m start l.reverse) key.2 with
    | some backup => backup = content
    | none => standing m start.installed l.reverse key = some (.file content)

theorem restored_iff {start s' : Files} (hmem : key ∈ l.map Slot.key)
    (hafter : After m start l.reverse s) (hback : RolledBack m l key s s') :
    s'.installed key = start.installed key ↔ Restorable m start l key := by
  have hmem' : key ∈ l.reverse.map Slot.key := by
    rw [List.map_reverse]
    exact List.mem_reverse.mpr hmem
  rw [Restorable, ← hafter.1, ← hafter.2]
  cases hheld : held (start.installed key) with
  | some n =>
    constructor
    · intro hsame
      obtain ⟨k, hk⟩ := hback.held
      have hcount := List.count_pos_iff.mpr hmem'
      rw [hafter.1, held_standing, hsame, hheld, Option.map_some, Option.map_some] at hk
      have := Option.some.inj hk
      omega
    · intro hfile
      obtain ⟨content, hfile, -⟩ := hfile
      rw [hfile] at hheld
      cases hheld
  | none =>
    obtain ⟨new, hnew⟩ := @standing_file m key l.reverse _ hheld hmem'
    rw [← hafter.1] at hnew
    cases hrolled : rolled m s.backup key.2 with
    | none =>
      rw [hback.kept (.inr hrolled)]
      constructor
      · intro hsame
        exact ⟨new, hsame.symm.trans hnew, hnew⟩
      · intro hfile
        obtain ⟨content, hfile, hstanding⟩ := hfile
        exact hstanding.trans hfile.symm
    | some backup =>
      rw [hback.file backup hmem hrolled (by rw [hnew]; rfl)]
      constructor
      · intro hsame
        exact ⟨backup, hsame.symm, rfl⟩
      · intro hfile
        obtain ⟨content, hfile, hsame⟩ := hfile
        rw [hsame, hfile]

end Rollback

section Units
variable {m : Machine} {build : BuildStep} {s : Progress} {k : Nat} {unit : String}

/-- The restart command of a round succeeds. -/
def Machine.restarts (m : Machine) (k : Nat) : Bool := m.hasSudo && m.restart k

/-- The unit of a round was active, and is not after its restart. -/
def Machine.fails (m : Machine) (k : Nat) : Bool := m.was k && !(m.restarts k && cameBack m k)

def startedEvents (answer : Bool) (unit : String) : List UnitEvent :=
  if answer then [.started unit] else []

/-- The files after the rollback. -/
def rolledFiles (m : Machine) (build : BuildStep) (files : Files) : Files :=
  (forEach (rollbackSlot m) (slots m build) files).state

theorem restartUnit_apply (answer : Bool) : restartUnit m answer unit s =
    ⟨if m.hasSudo && answer then 0 else 1, false,
      { s with log := s.log ++ startedEvents (m.hasSudo && answer) unit }⟩ := by
  rw [restartUnit, startedEvents]
  cases m.hasSudo && answer with
  | true => rfl
  | false => simp

theorem sfwRollback_apply (hcopies : Copies m) : sfwRollback m build s =
    ⟨0, false, ⟨rolledFiles m build s.files, s.log ++ [.rolledBack]⟩⟩ := by
  have hstays : (onFiles (forEach (rollbackSlot m) (slots m build)) s).returned = false :=
    (rolledBack_all hcopies (slots m build) s.files).1
  rw [sfwRollback, seq_apply hstays]
  rfl

theorem unitRound_stays (h : m.fails k = false) :
    unitRound m build k unit s =
      ⟨0, false, { s with log := s.log ++ startedEvents (m.was k) unit }⟩ := by
  rw [unitRound, ifThen_test]
  cases hwas : m.was k with
  | false => simp [startedEvents]
  | true =>
    rw [Machine.fails, hwas, Machine.restarts] at h
    have hboth : (m.hasSudo && m.restart k) = true ∧ cameBack m k = true := by simpa using h
    rw [if_pos rfl, seq, ifElse, restartUnit_apply, hboth.1]
    simp [hboth.2, startedEvents]

theorem unitRound_fails (hcopies : Copies m) (h : m.fails k = true) :
    unitRound m build k unit s =
      ⟨1, true, ⟨rolledFiles m build s.files, s.log ++ startedEvents (m.restarts k) unit ++
        .rolledBack :: startedEvents (m.restarts k && (m.hasSudo && m.again k)) unit⟩⟩ := by
  rw [Machine.fails, Machine.restarts, Bool.and_eq_true] at h
  rw [unitRound, ifThen_test, if_pos h.1, seq, ifElse, restartUnit_apply, Machine.restarts]
  cases hrestart : m.hasSudo && m.restart k with
  | false =>
    simp [seq, sfwRollback_apply hcopies, startedEvents]
  | true =>
    have hback : cameBack m k = false := by simpa [hrestart] using h.2
    simp [seq, hback, sfwRollback_apply hcopies, restartUnit_apply, startedEvents]

/-- The round at which the loop ends. -/
structure FailsFirst (m : Machine) (units : List String) (first k : Nat) (unit : String) : Prop where
  unit : units[k]? = some unit
  fails : m.fails (first + k) = true
  before : ∀ i < k, m.fails (first + i) = false

theorem FailsFirst.unique {units : List String} {first k' : Nat} {unit' : String}
    (h : FailsFirst m units first k unit) (h' : FailsFirst m units first k' unit') : k = k' := by
  rcases Nat.lt_trichotomy k k' with hlt | heq | hlt
  · cases h.fails.symm.trans (h'.before k hlt)
  · exact heq
  · cases h'.fails.symm.trans (h.before k' hlt)

theorem unitsFrom_ends (hcopies : Copies m) (units : List String) (first : Nat)
    (hs : .rolledBack ∉ s.log) :
    (unitsFrom m build first units s).status = 0 ∨
      ∃ k unit before, FailsFirst m units first k unit ∧ .rolledBack ∉ before ∧
        (unitsFrom m build first units s).state =
          ⟨rolledFiles m build s.files, before ++ .rolledBack ::
            startedEvents (m.restarts (first + k) && (m.hasSudo && m.again (first + k))) unit⟩ := by
  induction units generalizing first s with
  | nil => exact .inl rfl
  | cons unit units ih =>
    have hstarted : ∀ answer, UnitEvent.rolledBack ∉ s.log ++ startedEvents answer unit := by
      intro answer hmem
      refine (List.mem_append.mp hmem).elim hs fun h => ?_
      cases answer with
      | false => cases h
      | true => cases List.mem_singleton.mp h
    rw [unitsFrom]
    cases hfails : m.fails first with
    | true =>
      have hround := @unitRound_fails m build s first unit hcopies hfails
      rw [seq_returned (by rw [hround]), hround]
      exact .inr ⟨0, unit, _, ⟨rfl, hfails, nofun⟩, hstarted _, rfl⟩
    | false =>
      have hround := @unitRound_stays m build s first unit hfails
      rw [seq_apply (by rw [hround]), hround]
      refine (@ih _ (first + 1) (hstarted _)).imp_right fun hend => ?_
      obtain ⟨k, found, before, hfirst, hbefore, hstate⟩ := hend
      have hindex : first + 1 + k = first + (k + 1) := by omega
      rw [hindex] at hstate
      refine ⟨k + 1, found, before, ⟨hfirst.unit, hindex ▸ hfirst.fails, fun i hi => ?_⟩, hbefore,
        hstate⟩
      cases i with
      | zero => exact hfails
      | succ i =>
        have hearlier := hfirst.before i (by omega)
        rw [show first + 1 + i = first + (i + 1) by omega] at hearlier
        exact hearlier

/-- The install paths are as they were before, and every unit that was active was started after the
rollback. -/
structure Recovered (m : Machine) (build : BuildStep) (start : Files) (s : Progress) : Prop where
  restored : ∀ slot ∈ slots m build, s.files.installed slot.key = start.installed slot.key
  started : ∀ unit ∈ build.units, m.active unit = true →
    .started unit ∈ s.log.dropWhile (· != .rolledBack)

/-- A unit that was active is the one that fails, and could be started before and after the
rollback. -/
def OnlyFailed (m : Machine) (build : BuildStep) : Prop :=
  ∀ unit ∈ build.units, m.active unit = true →
    ∃ k, FailsFirst m build.units 0 k unit ∧ m.hasSudo = true ∧ m.restart k = true ∧ m.again k = true

theorem mem_startedEvents {answer : Bool} {found : String} :
    UnitEvent.started found ∈ startedEvents answer unit ↔ answer = true ∧ found = unit := by
  cases answer with
  | false => simp [startedEvents]
  | true => simp [startedEvents]

/-- When a unit fails after the installation, everything is as before exactly if every path can be
restored and no unit but the failed one was active. -/
theorem recovered_iff {start : Files} (hcopies : Copies m)
    (hinstalled : (forEach (installSlot m) (slots m build) start).returned = false)
    (hstatus : (buildCommand m build ⟨start, []⟩).status ≠ 0) :
    Recovered m build start (buildCommand m build ⟨start, []⟩).state ↔
      (∀ slot ∈ slots m build, Restorable m start (slots m build) slot.key) ∧
        OnlyFailed m build := by
  have hafter := after_install (slots m build) start hinstalled
  have hstays : (onFiles (forEach (installSlot m) (slots m build)) ⟨start, []⟩).returned = false :=
    hinstalled
  rw [buildCommand, seq_apply hstays] at hstatus ⊢
  rcases @unitsFrom_ends m build
    (onFiles (forEach (installSlot m) (slots m build)) ⟨start, []⟩).state hcopies build.units 0
    List.not_mem_nil with hzero | ⟨k, unit, before, hfirst, hbefore, hstate⟩
  · exact absurd hzero hstatus
  · rw [hstate]
    have hrolled := (rolledBack_all hcopies (slots m build)
      (forEach (installSlot m) (slots m build) start).state).2
    have hfiles : (∀ slot ∈ slots m build, (rolledFiles m build
        (forEach (installSlot m) (slots m build) start).state).installed slot.key =
          start.installed slot.key) ↔
        ∀ slot ∈ slots m build, Restorable m start (slots m build) slot.key := by
      refine forall_congr' fun slot => forall_congr' fun hslot => ?_
      exact restored_iff (List.mem_map_of_mem hslot) hafter (hrolled slot.key)
    have hdrop : ∀ after, (before ++ UnitEvent.rolledBack :: after).dropWhile (· != .rolledBack) =
        .rolledBack :: after := by
      intro after
      rw [List.dropWhile_append_of_pos, List.dropWhile_cons_of_neg (by simp)]
      intro event hevent
      exact bne_iff_ne.mpr fun heq => hbefore (heq ▸ hevent)
    have hunits : (∀ found ∈ build.units, m.active found = true → UnitEvent.started found ∈
          (before ++ UnitEvent.rolledBack :: startedEvents
            (m.restarts (0 + k) && (m.hasSudo && m.again (0 + k))) unit).dropWhile
              (· != .rolledBack)) ↔ OnlyFailed m build := by
      refine forall_congr' fun found => forall_congr' fun hmem => forall_congr' fun hactive => ?_
      rw [hdrop, List.mem_cons, or_iff_right (fun h => nomatch h), mem_startedEvents, Nat.zero_add]
      simp only [Machine.restarts, Bool.and_eq_true]
      constructor
      · intro hstarted
        obtain ⟨⟨⟨hsudo, hrestart⟩, -, hagain⟩, rfl⟩ := hstarted
        exact ⟨k, hfirst, hsudo, hrestart, hagain⟩
      · intro honly
        obtain ⟨k', hfirst', hsudo, hrestart, hagain⟩ := honly
        obtain rfl := hfirst.unique hfirst'
        exact ⟨⟨⟨hsudo, hrestart⟩, hsudo, hagain⟩,
          Option.some.inj (hfirst'.unit.symm.trans hfirst.unit)⟩
    constructor
    · intro hrecovered
      exact ⟨hfiles.mp hrecovered.restored, hunits.mp hrecovered.started⟩
    · intro hconditions
      exact ⟨hfiles.mpr hconditions.1, hunits.mpr hconditions.2⟩

end Units

section OneArtifact

def appBuild : BuildStep where
  name := none
  target := ⟨"api", 1⟩
  repo := "https://github.com/x/app.git"
  workdir := none
  gitRef := "v2"
  buildCmd := "make"
  prepCmd := none
  artifacts := ["app"]
  installDirs := ["/opt"]
  units := ["app.service"]
  versionFlag := ""
  minFreeGb := 8
  timeout := none

/-- The service does not come back after its restart; the login is root. -/
def brokenApp : Machine where
  tdir := "/src/target"
  dest := "/src"
  hasSudo := true
  elevated _ := true
  direct _ := true
  sees _ := true
  seesBackup _ := true
  built _ := some "new"
  active _ := true
  was _ := true
  restart _ := true
  poll _ _ := false
  again _ := true

def startFiles (node : Option Node) : Files := ⟨fun _ => node, fun _ => none, fun _ => none, fun _ => none⟩

theorem recovered_iff_app :
    Recovered brokenApp appBuild (startFiles (some (.file "old")))
        (buildCommand brokenApp appBuild ⟨startFiles (some (.file "old")), []⟩).state ↔
      (∀ slot ∈ slots brokenApp appBuild, Restorable brokenApp (startFiles (some (.file "old")))
        (slots brokenApp appBuild) slot.key) ∧ OnlyFailed brokenApp appBuild :=
  recovered_iff (fun _ => ⟨rfl, rfl⟩) (by decide) (by decide)

/-- The binary that was not there before is left in place. -/
theorem first_install_stays : ¬∀ (m : Machine) (build : BuildStep) (start : Files), Copies m →
    (forEach (installSlot m) (slots m build) start).returned = false →
    (buildCommand m build ⟨start, []⟩).status ≠ 0 →
      Recovered m build start (buildCommand m build ⟨start, []⟩).state := by
  intro hall
  have hrecovered := hall brokenApp appBuild (startFiles none) (fun _ => ⟨rfl, rfl⟩) (by decide)
    (by decide)
  have habsent := hrecovered.restored ⟨"app", "/src/app", "/opt"⟩ (by decide)
  revert habsent
  decide

end OneArtifact

end Shellflow.Build
