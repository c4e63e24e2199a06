import Mathlib.Data.List.Nodup
import Shellflow.Executor.Release

/-! What a release step leaves in the target directory: the installation of a file touches the name of
its copy and its own name, and its failure counts only when every other file fails too. -/
namespace Shellflow.Release
open AndOr Leftmost

section Names
variable {e g : Entry}

/-- An executable file at the top of the archive. -/
def IsExecutable (e : Entry) : Prop := e.regular = true ∧ e.executable = true

instance (e : Entry) : Decidable (IsExecutable e) := inferInstanceAs (Decidable (_ ∧ _))

theorem stagingName_injective (h : stagingName e = stagingName g) : baseName e = baseName g :=
  List.append_cancel_right (List.cons.inj h).2

/-- The name of a copy begins with a dot, and the name of a file that the loop sees does not. -/
theorem baseName_ne_stagingName (he : e.name.head? ≠ some '.') : baseName e ≠ stagingName g := by
  intro heq
  refine he ?_
  have hpre : baseName e <+: e.name := List.rdropWhile_prefix _ _
  rw [heq, stagingName] at hpre
  obtain ⟨rest, hrest⟩ := hpre
  rw [← hrest]
  rfl

end Names

section Attempt
variable (machine : Machine)

/-- What stands under the name of the copy and under the name of the file. -/
abbrev Slot := Option Node × Option Node

/-- The copy cannot be renamed. -/
def Stays (e : Entry) : Prop := machine.rename e.name = false ∨ baseName e = []

instance (e : Entry) : Decidable (Stays machine e) := inferInstanceAs (Decidable (_ ∨ _))

/-- One file is copied, renamed and made executable; true when all of it succeeds. -/
def attempt (e : Entry) (slot : Slot) : Slot × Bool :=
  match machine.copy e.name with
  | .failed none => (slot, false)
  | .failed (some part) =>
    if slot.1 = some .directory then (slot, false)
    else ((some (.file ⟨part, false, false⟩), slot.2), false)
  | .done executable =>
    let copied := if slot.1 = some .directory then .directory else .file ⟨e.content, executable, true⟩
    if Stays machine e then ((some copied, slot.2), false)
    else
      match copied, slot.2 with
      | _, some .directory => ((none, some .directory), machine.chmod e.name)
      | .directory, some (.file f) => ((some .directory, some (.file f)), false)
      | node, _ =>
        ((none, some (if machine.chmod e.name then node.markExecutable else node)),
          machine.chmod e.name)

def slotAt (e : Entry) (files : Files) : Slot := (files (stagingName e), files (baseName e))

def Progress.place (p : Progress) (e : Entry) (slot : Slot) : Files :=
  Function.update (Function.update p.files (stagingName e) slot.1) (baseName e) slot.2

end Attempt

section Iteration
variable {machine : Machine} {e : Entry} {p : Progress}

theorem installFile_unlisted (h : ¬ IsExecutable e) : (installFile machine e p).state = p := by
  rw [installFile_state, if_neg]
  rw [Bool.and_eq_true]
  exact h

/-- Nothing is placed that was not there. -/
theorem place_self (p : Progress) (e : Entry) : p.place e (slotAt e p.files) = p.files := by
  rw [Progress.place, slotAt, Function.update_eq_self, Function.update_eq_self]

theorem place_copy (hname : baseName e ≠ stagingName e) (node : Option Node) :
    p.place e (node, p.files (baseName e)) = Function.update p.files (stagingName e) node := by
  have hbase : p.files (baseName e) = Function.update p.files (stagingName e) node (baseName e) := by
    rw [Function.update_of_ne hname]
  rw [Progress.place, hbase, Function.update_eq_self]

theorem put_self {name : Text} {node : Option Node} (h : p.files name = node) : p.put name node = p := by
  rw [Progress.put, ← h, Function.update_eq_self]

/-- The copy of a file that is read to its end. -/
def copiedNode (e : Entry) (slot : Slot) (executable : Bool) : Node :=
  if slot.1 = some .directory then .directory else .file ⟨e.content, executable, true⟩

theorem cpFile_done {executable : Bool} (h : machine.copy e.name = .done executable) :
    cpFile machine e p =
      ⟨0, false, p.put (stagingName e) (some (copiedNode e (slotAt e p.files) executable))⟩ := by
  rw [cpFile, h, copiedNode, slotAt]
  dsimp only
  by_cases hdir : p.files (stagingName e) = some .directory
  · rw [if_pos hdir, if_pos hdir, put_self hdir]
  · rw [if_neg hdir, if_neg hdir]

/-- The end of the installation, once the copy stands. -/
theorem attempt_done {executable : Bool} {slot : Slot} (h : machine.copy e.name = .done executable) :
    attempt machine e slot =
      if Stays machine e then ((some (copiedNode e slot executable), slot.2), false)
      else
        match copiedNode e slot executable, slot.2 with
        | _, some .directory => ((none, some .directory), machine.chmod e.name)
        | .directory, some (.file f) => ((some .directory, some (.file f)), false)
        | node, _ =>
          ((none, some (if machine.chmod e.name then node.markExecutable else node)),
            machine.chmod e.name) := by
  rw [attempt, h]
  rfl

/-- The change of mode, and the count of a file that gets through it. -/
theorem chmodFile_placed {q : Progress} {node : Node}
    (hq : q.files = p.place e (none, some node)) :
    (if (chmodFile machine e q).status = 0 then counted e (chmodFile machine e q).state
      else (chmodFile machine e q).state).files =
        p.place e (none, some (if machine.chmod e.name then node.markExecutable else node)) ∧
      (if (chmodFile machine e q).status = 0 then counted e (chmodFile machine e q).state
        else (chmodFile machine e q).state).n = q.n + (machine.chmod e.name).toNat := by
  have hnode : q.files (baseName e) = some node := by
    rw [hq, Progress.place, Function.update_self]
  cases hchmod : machine.chmod e.name with
  | true =>
    simp only [chmodFile, hchmod, if_true, counted, Progress.put, hnode, hq, Option.map_some]
    rw [Progress.place, Progress.place, Function.update_idem]
    exact ⟨rfl, rfl⟩
  | false => simp [chmodFile, hchmod, hq]

/-- The copy goes to the name of the file, or into a directory there. -/
theorem mvFile_placed (hname : baseName e ≠ stagingName e) {q : Progress} {copied : Node}
    (hq : q = p.put (stagingName e) (some copied))
    (hmove : ¬ Stays machine e)
    (hfits : ∀ f, copied = .directory → p.files (baseName e) ≠ some (.file f)) :
    (mvFile machine e q).status = 0 ∧ (mvFile machine e q).state.n = p.n ∧
      (mvFile machine e q).state.files = p.place e (none,
        some (if p.files (baseName e) = some .directory then .directory else copied)) := by
  have hst : q.files (stagingName e) = some copied := by
    rw [hq, Progress.files_put, Function.update_self]
  have hba : q.files (baseName e) = p.files (baseName e) := by
    rw [hq, Progress.files_put, Function.update_of_ne hname]
  have hfiles : Function.update q.files (stagingName e) none =
      Function.update p.files (stagingName e) none := by
    rw [hq, Progress.files_put, Function.update_idem]
  have hmove' : ¬ (machine.rename e.name = false ∨ baseName e = []) := hmove
  rw [mvFile, if_neg hmove', hst, hba]
  cases hnode : p.files (baseName e) with
  | none =>
    cases copied with
    | directory => exact ⟨rfl, by rw [hq]; rfl, congrArg (Function.update · _ _) hfiles⟩
    | file f => exact ⟨rfl, by rw [hq]; rfl, congrArg (Function.update · _ _) hfiles⟩
  | some node =>
    cases node with
    | directory =>
      have hplace := place_copy (p := p) hname none
      rw [hnode] at hplace
      refine ⟨rfl, by rw [hq]; rfl, ?_⟩
      rw [if_pos rfl, hplace]
      exact hfiles
    | file f =>
      cases copied with
      | directory => exact absurd hnode (hfits f rfl)
      | file f' => exact ⟨rfl, by rw [hq]; rfl, congrArg (Function.update · _ _) hfiles⟩

/-- What the loop does with one executable file. -/
theorem installFile_executable (hname : baseName e ≠ stagingName e) (h : IsExecutable e) :
    (installFile machine e p).state.files =
        p.place e (attempt machine e (slotAt e p.files)).1 ∧
      (installFile machine e p).state.n =
        p.n + (attempt machine e (slotAt e p.files)).2.toNat := by
  rw [installFile_state, if_pos (by rw [h.1, h.2]; rfl)]
  cases hcopy : machine.copy e.name with
  | failed part =>
    cases part with
    | none => simp [cpFile, attempt, hcopy, place_self]
    | some part =>
      by_cases hdir : p.files (stagingName e) = some .directory
      · have hslot : (slotAt e p.files).1 = some .directory := hdir
        simp [cpFile, attempt, hcopy, hdir, hslot, place_self]
      · simp [cpFile, attempt, hcopy, hdir, slotAt, place_copy hname, Progress.put]
  | done executable =>
    rw [cpFile_done hcopy, attempt_done hcopy]
    generalize copiedNode e (slotAt e p.files) executable = copied
    simp only [if_true]
    have hslot : (slotAt e p.files).2 = p.files (baseName e) := rfl
    by_cases hstay : Stays machine e
    · have hstay' : machine.rename e.name = false ∨ baseName e = [] := hstay
      simp [mvFile, hstay, hstay', Progress.put, hslot, place_copy hname]
    · rw [if_neg hstay, hslot]
      by_cases hfits : ∀ f, copied = .directory → p.files (baseName e) ≠ some (.file f)
      · obtain ⟨hstatus, hn, hfiles⟩ := mvFile_placed hname rfl hstay hfits
        rw [if_pos hstatus]
        obtain ⟨hplaced, hcount⟩ := chmodFile_placed hfiles
        rw [hplaced, hcount, hn]
        cases hnode : p.files (baseName e) with
        | none => exact ⟨rfl, rfl⟩
        | some node =>
          cases node with
          | directory => cases machine.chmod e.name <;> exact ⟨rfl, rfl⟩
          | file f =>
            cases copied with
            | directory => exact absurd hnode (hfits f rfl)
            | file f' => exact ⟨rfl, rfl⟩
      · push Not at hfits
        obtain ⟨f, rfl, hnode⟩ := hfits
        rw [hnode]
        have hst : (p.put (stagingName e) (some .directory)).files (stagingName e) =
            some .directory := by
          rw [Progress.files_put, Function.update_self]
        have hba : (p.put (stagingName e) (some .directory)).files (baseName e) = some (.file f) := by
          rw [Progress.files_put, Function.update_of_ne hname, hnode]
        have hplace := place_copy (p := p) hname (some .directory)
        rw [hnode] at hplace
        have hmove : ¬ (machine.rename e.name = false ∨ baseName e = []) := hstay
        simp [mvFile, hmove, hst, hba, hplace]

/-- The two names that the installation of a file touches. -/
def Touches (e : Entry) (name : Text) : Prop := name = stagingName e ∨ name = baseName e

theorem place_of_untouched {slot : Slot} {name : Text} (h : ¬ Touches e name) :
    p.place e slot name = p.files name := by
  rw [Touches, not_or] at h
  rw [Progress.place, Function.update_of_ne h.2, Function.update_of_ne h.1]

theorem installFile_frame (hname : baseName e ≠ stagingName e) {name : Text}
    (h : ¬ Touches e name) : (installFile machine e p).state.files name = p.files name := by
  by_cases hexecutable : IsExecutable e
  · rw [(installFile_executable hname hexecutable).1, place_of_untouched h]
  · rw [installFile_unlisted hexecutable]

/-- Files of different names do not touch what the others do. -/
theorem not_touches {g : Entry} (he : e.name.head? ≠ some '.') (hg : g.name.head? ≠ some '.')
    (hne : baseName e ≠ baseName g) :
    ¬ Touches e (stagingName g) ∧ ¬ Touches e (baseName g) := by
  constructor
  · rintro (h | h)
    · exact hne (stagingName_injective h).symm
    · exact baseName_ne_stagingName he h.symm
  · rintro (h | h)
    · exact baseName_ne_stagingName hg h
    · exact hne h.symm

end Iteration

section Outcomes
variable {machine : Machine} {e : Entry} {slot : Slot} {f : File}

/-- The copy takes the name of the file: it is read to its end and renamed, and no directory stands
under either name. -/
def Replaces (machine : Machine) (e : Entry) (slot : Slot) : Prop :=
  (∃ executable, machine.copy e.name = .done executable) ∧ ¬ Stays machine e ∧
    slot.1 ≠ some .directory ∧ slot.2 ≠ some .directory

/-- Every command for the file succeeds, though a directory may have taken it in. -/
def Succeeds (machine : Machine) (e : Entry) (slot : Slot) : Prop :=
  (∃ executable, machine.copy e.name = .done executable) ∧ ¬ Stays machine e ∧
    machine.chmod e.name = true ∧ ¬ (slot.1 = some .directory ∧ ∃ f, slot.2 = some (.file f))

theorem attempt_moved {executable : Bool} (h : machine.copy e.name = .done executable)
    (hmove : ¬ Stays machine e) : attempt machine e slot =
      match copiedNode e slot executable, slot.2 with
      | _, some .directory => ((none, some .directory), machine.chmod e.name)
      | .directory, some (.file f) => ((some .directory, some (.file f)), false)
      | node, _ =>
        ((none, some (if machine.chmod e.name then node.markExecutable else node)),
          machine.chmod e.name) := by
  rw [attempt_done h, if_neg hmove]

theorem attempt_stays {executable : Bool} (h : machine.copy e.name = .done executable)
    (hstay : Stays machine e) :
    attempt machine e slot = ((some (copiedNode e slot executable), slot.2), false) := by
  rw [attempt_done h, if_pos hstay]

/-- The node that a move leaves under the name of the file. -/
theorem attempt_moved_base {executable : Bool} (h : machine.copy e.name = .done executable)
    (hmove : ¬ Stays machine e) (hst : slot.1 ≠ some .directory) (hba : slot.2 ≠ some .directory) :
    attempt machine e slot =
      ((none, some (.file ⟨e.content, executable || machine.chmod e.name, true⟩)),
        machine.chmod e.name) := by
  obtain ⟨st, ba⟩ := slot
  have hcopied : copiedNode e (st, ba) executable = .file ⟨e.content, executable, true⟩ :=
    if_neg hst
  rw [attempt_moved h hmove, hcopied]
  cases ba with
  | none => cases hchmod : machine.chmod e.name <;> simp [Node.markExecutable]
  | some node =>
    cases node with
    | directory => exact absurd rfl hba
    | file f => cases hchmod : machine.chmod e.name <;> simp [Node.markExecutable]

theorem attempt_succeeds_iff : (attempt machine e slot).2 = true ↔ Succeeds machine e slot := by
  unfold Succeeds
  cases hcopy : machine.copy e.name with
  | failed part =>
    constructor
    · intro h
      rw [attempt, hcopy] at h
      cases part with
      | none => cases h
      | some part =>
        dsimp only at h
        split at h <;> cases h
    · rintro ⟨⟨executable, hdone⟩, -⟩
      cases hdone
  | done executable =>
    by_cases hstay : Stays machine e
    · rw [attempt_stays hcopy hstay]
      exact ⟨nofun, fun h => absurd hstay h.2.1⟩
    · obtain ⟨st, ba⟩ := slot
      rw [attempt_moved hcopy hstay, copiedNode]
      rcases st with _ | _ | f <;> rcases ba with _ | _ | g <;> simp [hstay]

/-- A file under its own name is the one that was just installed, or it stood there before. -/
theorem attempt_base_iff : (attempt machine e slot).1.2 = some (.file f) ↔
    (Replaces machine e slot ∧ f = ⟨e.content, machine.copy e.name = .done true ||
      machine.chmod e.name, true⟩) ∨
    (¬ Replaces machine e slot ∧ slot.2 = some (.file f)) := by
  unfold Replaces
  cases hcopy : machine.copy e.name with
  | failed part =>
    have hsame : (attempt machine e slot).1.2 = slot.2 := by
      rw [attempt, hcopy]
      cases part with
      | none => rfl
      | some part =>
        dsimp only
        split <;> rfl
    simp [hsame]
  | done executable =>
    by_cases hstay : Stays machine e
    · rw [attempt_stays hcopy hstay]
      simp [hstay]
    · by_cases hst : slot.1 = some .directory
      · obtain ⟨st, ba⟩ := slot
        obtain rfl : st = some .directory := hst
        rw [attempt_moved hcopy hstay, copiedNode]
        rcases ba with _ | _ | g
        · cases machine.chmod e.name <;> simp [Node.markExecutable]
        · simp
        · simp
      · by_cases hba : slot.2 = some .directory
        · obtain ⟨st, ba⟩ := slot
          obtain rfl : ba = some .directory := hba
          rw [attempt_moved hcopy hstay]
          simp
        · rw [attempt_moved_base hcopy hstay hst hba]
          cases executable <;> simp [hstay, hst, hba, eq_comm]

/-- A file under the name of the copy stood there before, was broken off, or could not be renamed. -/
theorem attempt_staging_iff : (attempt machine e slot).1.1 = some (.file f) ↔
    (machine.copy e.name = .failed none ∧ slot.1 = some (.file f)) ∨
    (slot.1 ≠ some .directory ∧ ∃ part, machine.copy e.name = .failed (some part) ∧
      f = ⟨part, false, false⟩) ∨
    (slot.1 ≠ some .directory ∧ Stays machine e ∧ ∃ executable,
      machine.copy e.name = .done executable ∧ f = ⟨e.content, executable, true⟩) := by
  cases hcopy : machine.copy e.name with
  | failed part =>
    rw [attempt, hcopy]
    cases part with
    | none => simp
    | some part =>
      by_cases hst : slot.1 = some .directory
      · simp [hst]
      · simp [hst, eq_comm]
  | done executable =>
    by_cases hstay : Stays machine e
    · rw [attempt_stays hcopy hstay, copiedNode]
      by_cases hst : slot.1 = some .directory
      · simp [hst]
      · simp [hst, hstay, eq_comm]
    · obtain ⟨st, ba⟩ := slot
      rw [attempt_moved hcopy hstay, copiedNode]
      rcases st with _ | _ | f <;> rcases ba with _ | _ | g <;> simp [hstay]

end Outcomes

section Loop
variable {machine : Machine} {L : List Entry} {p q : Progress}

def installListed (machine : Machine) (L : List Entry) (p : Progress) : Progress :=
  L.foldl (fun p e => (installFile machine e p).state) p

/-- A file of the list that is installed from end to end. -/
def Counted (machine : Machine) (files : Files) (e : Entry) : Prop :=
  IsExecutable e ∧ (attempt machine e (slotAt e files)).2 = true

instance (machine : Machine) (files : Files) (e : Entry) : Decidable (Counted machine files e) :=
  inferInstanceAs (Decidable (_ ∧ _))

/-- The loop gives every executable file what one attempt gives it, and leaves other names alone. -/
structure Ran (machine : Machine) (L : List Entry) (p q : Progress) : Prop where
  own : ∀ e ∈ L, IsExecutable e → slotAt e q.files = (attempt machine e (slotAt e p.files)).1
  frame : ∀ name, (∀ e ∈ L, IsExecutable e → ¬ Touches e name) → q.files name = p.files name
  grows : p.n ≤ q.n
  none_counted : q.n = p.n ↔ ∀ e ∈ L, ¬ Counted machine p.files e

theorem slotAt_place (hname : baseName e ≠ stagingName e) (slot : Slot) :
    slotAt e (p.place e slot) = slot := by
  rw [slotAt, Progress.place, Function.update_self, Function.update_of_ne hname.symm,
    Function.update_self]

theorem ran_installListed (hvisible : ∀ e ∈ L, e.name.head? ≠ some '.')
    (hdistinct : (L.map baseName).Nodup) : Ran machine L p (installListed machine L p) := by
  induction L generalizing p with
  | nil => exact ⟨nofun, fun _ _ => rfl, Nat.le_refl _, ⟨fun _ => nofun, fun _ => rfl⟩⟩
  | cons e L ih =>
    obtain ⟨he, hL⟩ := List.forall_mem_cons.mp hvisible
    obtain ⟨hfresh, hrest⟩ := List.nodup_cons.mp hdistinct
    have hname : baseName e ≠ stagingName e := baseName_ne_stagingName he
    have hother : ∀ g ∈ L, baseName e ≠ baseName g := by
      intro g hg heq
      exact hfresh (heq ▸ List.mem_map_of_mem hg)
    have hlater := ih hL hrest (p := (installFile machine e p).state)
    have hslot : ∀ g ∈ L, slotAt g (installFile machine e p).state.files = slotAt g p.files := by
      intro g hg
      obtain ⟨hstaging, hbase⟩ := not_touches he (hL g hg) (hother g hg)
      rw [slotAt, slotAt, installFile_frame hname hstaging, installFile_frame hname hbase]
    have hown : slotAt e (installListed machine L (installFile machine e p).state).files =
        slotAt e (installFile machine e p).state.files := by
      rw [slotAt, slotAt, hlater.frame _ fun g hg _ =>
          (not_touches (hL g hg) he (hother g hg).symm).1,
        hlater.frame _ fun g hg _ => (not_touches (hL g hg) he (hother g hg).symm).2]
    have hcount : (installFile machine e p).state.n = p.n + (if Counted machine p.files e then 1 else 0) := by
      by_cases hexecutable : IsExecutable e
      · rw [(installFile_executable hname hexecutable).2]
        have hiff : Counted machine p.files e ↔ (attempt machine e (slotAt e p.files)).2 = true :=
          and_iff_right hexecutable
        rw [if_congr hiff rfl rfl]
        cases (attempt machine e (slotAt e p.files)).2 <;> rfl
      · rw [installFile_unlisted hexecutable, if_neg fun h => hexecutable h.1, Nat.add_zero]
    have hsame : (∀ g ∈ L, ¬ Counted machine (installFile machine e p).state.files g) ↔
        ∀ g ∈ L, ¬ Counted machine p.files g := by
      refine forall₂_congr fun g hg => ?_
      rw [Counted, Counted, hslot g hg]
    refine ⟨?_, ?_, ?_, ?_⟩
    · refine List.forall_mem_cons.mpr ⟨fun hexecutable => ?_, fun g hg hexecutable => ?_⟩
      · rw [installListed, List.foldl_cons, ← installListed, hown,
          (installFile_executable hname hexecutable).1, slotAt_place hname]
      · rw [installListed, List.foldl_cons, ← installListed, hlater.own g hg hexecutable, hslot g hg]
    · intro name hname'
      obtain ⟨hfirst, hothers⟩ := List.forall_mem_cons.mp hname'
      rw [installListed, List.foldl_cons, ← installListed, hlater.frame name hothers]
      by_cases hexecutable : IsExecutable e
      · exact installFile_frame hname (hfirst hexecutable)
      · rw [installFile_unlisted hexecutable]
    · have := hlater.grows
      rw [installListed, List.foldl_cons, ← installListed]
      omega
    · have hgrows := hlater.grows
      have hnone := hlater.none_counted
      rw [hsame] at hnone
      rw [installListed, List.foldl_cons, ← installListed, List.forall_mem_cons, ← hnone]
      by_cases hcounted : Counted machine p.files e
      · rw [if_pos hcounted] at hcount
        constructor
        · intro heq
          omega
        · exact fun h => absurd hcounted h.1
      · rw [if_neg hcounted, Nat.add_zero] at hcount
        rw [and_iff_right hcounted, hcount]

end Loop

section Landing
variable {machine : Machine} {archive : Archive} {e g : Entry}

def slotBefore (machine : Machine) (e : Entry) : Slot := slotAt e machine.files

/-- The file stands complete and executable under its name when all is done: it was put there and made
executable, or it stood there and nothing took its place, or it is left as the copy of another. -/
inductive Lands (machine : Machine) (archive : Archive) (e : Entry) : Prop where
  | installed (hlisted : e ∈ globbed archive.entries) (hname : baseName e = e.name)
      (hreplaces : Replaces machine e (slotBefore machine e))
      (hmode : machine.copy e.name = .done true ∨ machine.chmod e.name = true)
  | stood (hthere : machine.files e.name = some (.file ⟨e.content, true, true⟩))
      (hbase : ∀ g ∈ globbed archive.entries, IsExecutable g → baseName g = e.name →
        ¬ Replaces machine g (slotBefore machine g))
      (hstaging : ∀ g ∈ globbed archive.entries, IsExecutable g → stagingName g = e.name →
        machine.copy g.name = .failed none)
  | left (g : Entry) (hlisted : g ∈ globbed archive.entries) (hexecutable : IsExecutable g)
      (hstaging : stagingName g = e.name) (hfree : machine.files e.name ≠ some .directory)
      (hstays : Stays machine g) (hcopy : machine.copy g.name = .done true)
      (hcontent : g.content = e.content)

theorem visible_of_globbed (h : g ∈ globbed archive.entries) : g.name.head? ≠ some '.' := by
  have := (List.mem_filter.mp h).2
  simpa using this

theorem distinct_globbed (archive : Archive) : ((globbed archive.entries).map baseName).Nodup :=
  archive.distinct.sublist (List.filter_sublist.map _)

theorem eq_of_baseName (he : e ∈ archive.entries) (hg : g ∈ archive.entries)
    (h : baseName e = baseName g) : e = g := List.inj_on_of_nodup_map archive.distinct he hg h

theorem baseName_of_eq (h : baseName g = e.name) : baseName e = e.name := by
  rw [baseName, ← h, baseName, trimNewlines, trimNewlines, List.rdropWhile_idempotent]

/-- The run of the loop leaves a file complete and executable under its name exactly when it lands. -/
theorem lands_iff {p q : Progress} (hp : p.files = machine.files)
    (hran : Ran machine (globbed archive.entries) p q) (he : e ∈ archive.entries)
    (hexecutable : IsExecutable e) :
    q.files e.name = some (.file ⟨e.content, true, true⟩) ↔ Lands machine archive e := by
  have hlisted : ∀ g ∈ globbed archive.entries, g ∈ archive.entries :=
    fun g hg => (List.mem_filter.mp hg).1
  by_cases hbase : ∃ g ∈ globbed archive.entries, IsExecutable g ∧ baseName g = e.name
  · obtain ⟨g, hg, hgexecutable, hname⟩ := hbase
    obtain rfl : e = g := eq_of_baseName he (hlisted g hg) ((baseName_of_eq hname).trans hname.symm)
    have hown := congrArg Prod.snd (hran.own e hg hexecutable)
    rw [hp] at hown
    have hfiles : q.files e.name = (attempt machine e (slotBefore machine e)).1.2 := by
      rw [← hname]
      exact hown
    have hslot : (slotBefore machine e).2 = machine.files e.name := congrArg machine.files hname
    rw [hfiles, attempt_base_iff, hslot]
    constructor
    · rintro (⟨hreplaces, hfile⟩ | ⟨hkeeps, hthere⟩)
      · refine .installed hg hname hreplaces ?_
        simpa using hfile
      · refine .stood hthere (fun g hg' _ hname' => ?_) fun g hg' _ hstaging => ?_
        · obtain rfl : e = g :=
            eq_of_baseName he (hlisted g hg') (hname.trans hname'.symm)
          exact hkeeps
        · exact absurd (hname.trans hstaging.symm) (baseName_ne_stagingName (visible_of_globbed hg))
    · rintro (⟨-, -, hreplaces, hmode⟩ | ⟨hthere, hkeeps, -⟩ | ⟨g, -, -, hstaging, -, -, -, -⟩)
      · exact .inl ⟨hreplaces, by simpa using hmode⟩
      · exact .inr ⟨hkeeps e hg hexecutable hname, hthere⟩
      · exact absurd (hname.trans hstaging.symm) (baseName_ne_stagingName (visible_of_globbed hg))
  · push Not at hbase
    by_cases hstaging : ∃ g ∈ globbed archive.entries, IsExecutable g ∧ stagingName g = e.name
    · obtain ⟨g, hg, hgexecutable, hname⟩ := hstaging
      have hown := congrArg Prod.fst (hran.own g hg hgexecutable)
      rw [hp] at hown
      have hfiles : q.files e.name = (attempt machine g (slotBefore machine g)).1.1 := by
        rw [← hname]
        exact hown
      have hslot : (slotBefore machine g).1 = machine.files e.name := congrArg machine.files hname
      rw [hfiles, attempt_staging_iff, hslot]
      constructor
      · rintro (⟨hcopy, hthere⟩ | ⟨-, part, -, hfile⟩ | ⟨hfree, hstays, executable, hcopy, hfile⟩)
        · refine .stood hthere (fun g' hg' hg'' hname' => absurd hname' (hbase g' hg' hg'')) ?_
          intro g' hg' _ hname'
          obtain rfl : g' = g := eq_of_baseName (hlisted g' hg') (hlisted g hg)
            (stagingName_injective (hname'.trans hname.symm))
          exact hcopy
        · cases hfile
        · obtain ⟨hcontent, hmode, -⟩ := File.mk.inj hfile
          exact .left g hg hgexecutable hname hfree hstays (hmode ▸ hcopy) hcontent.symm
      · rintro (⟨hg', hname', -, -⟩ | ⟨hthere, -, hkeeps⟩ | ⟨g', hg', -, hname', hfree, hstays, hcopy,
          hcontent⟩)
        · exact absurd hname' (hbase e hg' hexecutable)
        · exact .inl ⟨hkeeps g hg hgexecutable hname, hthere⟩
        · obtain rfl : g' = g := eq_of_baseName (hlisted g' hg') (hlisted g hg)
            (stagingName_injective (hname'.trans hname.symm))
          exact .inr (.inr ⟨hfree, hstays, true, hcopy, by rw [hcontent]⟩)
    · push Not at hstaging
      have hfiles : q.files e.name = machine.files e.name := by
        rw [← hp]
        refine hran.frame e.name fun g hg hgexecutable => ?_
        rintro (hname | hname)
        · exact hstaging g hg hgexecutable hname.symm
        · exact hbase g hg hgexecutable hname.symm
      rw [hfiles]
      constructor
      · intro hthere
        exact .stood hthere (fun g hg hgexecutable hname => absurd hname (hbase g hg hgexecutable))
          fun g hg hgexecutable hname => absurd hname (hstaging g hg hgexecutable)
      · rintro (⟨hg, hname, -, -⟩ | ⟨hthere, -, -⟩ | ⟨g, hg, hgexecutable, hname, -, -, -, -⟩)
        · exact absurd hname (hbase e hg hexecutable)
        · exact hthere
        · exact absurd hname (hstaging g hg hgexecutable)

/-- A file that was left half written stands here. -/
def Half (node : Option Node) : Prop := ∃ f, node = some (.file f) ∧ f.whole = false

/-- The copy of the file breaks off after it began. -/
def Torn (machine : Machine) (g : Entry) : Prop :=
  (∃ part, machine.copy g.name = .failed (some part)) ∧
    machine.files (stagingName g) ≠ some .directory ∧ ¬ Half (machine.files (stagingName g))

theorem whole_iff {p q : Progress} (hp : p.files = machine.files)
    (hran : Ran machine (globbed archive.entries) p q) :
    (∀ name, Half (q.files name) → Half (machine.files name)) ↔
      ∀ g ∈ globbed archive.entries, IsExecutable g → ¬ Torn machine g := by
  constructor
  · rintro hwhole g hg hexecutable ⟨⟨part, hcopy⟩, hfree, hnew⟩
    have hown := congrArg Prod.fst (hran.own g hg hexecutable)
    rw [hp] at hown
    have hfile : (attempt machine g (slotAt g machine.files)).1.1 =
        some (.file ⟨part, false, false⟩) :=
      attempt_staging_iff.mpr (.inr (.inl ⟨hfree, part, hcopy, rfl⟩))
    exact hnew (hwhole (stagingName g) ⟨_, hown.trans hfile, rfl⟩)
  · rintro htorn name ⟨f, hfile, hhalf⟩
    by_cases htouched : ∃ g ∈ globbed archive.entries, IsExecutable g ∧ Touches g name
    · obtain ⟨g, hg, hexecutable, hname | hname⟩ := htouched
      · have hown := congrArg Prod.fst (hran.own g hg hexecutable)
        have hleft : (attempt machine g (slotAt g machine.files)).1.1 = some (.file f) := by
          rw [← hp, ← hown, ← hfile, hname]
          rfl
        rcases attempt_staging_iff.mp hleft with
          ⟨-, hthere⟩ | ⟨hfree, part, hcopy, -⟩ | ⟨-, -, executable, -, rfl⟩
        · rw [hname]
          exact ⟨f, hthere, hhalf⟩
        · rw [hname]
          by_contra hnew
          exact htorn g hg hexecutable ⟨⟨part, hcopy⟩, hfree, hnew⟩
        · cases hhalf
      · have hown := congrArg Prod.snd (hran.own g hg hexecutable)
        have hleft : (attempt machine g (slotAt g machine.files)).1.2 = some (.file f) := by
          rw [← hp, ← hown, ← hfile, hname]
          rfl
        rcases attempt_base_iff.mp hleft with ⟨-, rfl⟩ | ⟨-, hthere⟩
        · cases hhalf
        · rw [hname]
          exact ⟨f, hthere, hhalf⟩
    · push Not at htouched
      rw [hran.frame name htouched, hp] at hfile
      exact ⟨f, hfile, hhalf⟩

end Landing

section Closed
variable {release : ReleaseStep} {machine : Machine} {tag : Text}

/-- An exit status of zero speaks for every executable file of the archive, and no file is left half
written that was not so before. -/
structure FailsClosed (machine : Machine) (report : Report) : Prop where
  some_executable : report.status = 0 → ∃ archive, machine.extracted = some archive ∧
    ∃ e ∈ archive.entries, IsExecutable e
  installed : report.status = 0 → ∀ archive, machine.extracted = some archive →
    ∀ e ∈ archive.entries, IsExecutable e →
      report.files e.name = some (.file ⟨e.content, true, true⟩)
  whole : ∀ name, Half (report.files name) → Half (machine.files name)

/-- The run comes to the loop over the files of the archive. -/
def Unpacks (release : ReleaseStep) (machine : Machine) (tag : Text) (archive : Archive) : Prop :=
  machine.mktemp = true ∧ machine.download (assetUrl release tag) = true ∧
    machine.extracted = some archive

theorem update_unpacked {archive : Archive} (h : Unpacks release machine tag archive) :
    ∃ q, Ran machine (globbed archive.entries)
        ⟨machine.files, 0, [versionsLine release machine, updatingLine release tag]⟩ q ∧
      (update release machine tag).files = q.files ∧
      ((update release machine tag).status = 0 ↔ q.n ≠ 0) := by
  obtain ⟨hmktemp, hdownload, hextracted⟩ := h
  have hran := @ran_installListed machine (globbed archive.entries)
    ⟨machine.files, 0, [versionsLine release machine, updatingLine release tag]⟩
    (fun e he => visible_of_globbed he) (distinct_globbed archive)
  refine ⟨_, hran, ?_⟩
  have hloop : update release machine tag =
      let q := installListed machine (globbed archive.entries)
        ⟨machine.files, 0, [versionsLine release machine, updatingLine release tag]⟩
      if q.n = 0 then ⟨1, q.said ++ [noExecutableLine], [assetUrl release tag], q.files⟩
      else ⟨0, q.said, [assetUrl release tag], q.files⟩ := by
    rw [update, hmktemp, hdownload, hextracted]
    rfl
  rw [hloop]
  generalize installListed machine (globbed archive.entries)
    ⟨machine.files, 0, [versionsLine release machine, updatingLine release tag]⟩ = q
  by_cases hn : q.n = 0
  · rw [if_pos hn]
    exact ⟨rfl, nofun, fun hne => absurd hn hne⟩
  · rw [if_neg hn]
    exact ⟨rfl, fun _ => hn, fun _ => rfl⟩

theorem update_stopped (h : ∀ archive, ¬ Unpacks release machine tag archive) :
    (update release machine tag).status = 1 ∧ (update release machine tag).files = machine.files := by
  unfold update
  dsimp only
  split
  · exact ⟨rfl, rfl⟩
  · split
    · exact ⟨rfl, rfl⟩
    · split
      · exact ⟨rfl, rfl⟩
      · rename_i hmktemp hdownload _ archive hextracted
        exact absurd ⟨by simpa using hmktemp, by simpa using hdownload, hextracted⟩ (h archive)

/-- A run that gets past the comparison fails closed exactly when, of the files it unpacks, none is
installed from end to end or every executable one lands, and no copy breaks off. -/
theorem failsClosed_iff (h : verdict release machine = .update tag) :
    FailsClosed machine (releaseCommand release machine) ↔
      ∀ archive, Unpacks release machine tag archive →
        ((∀ g ∈ globbed archive.entries, IsExecutable g →
            ¬ Succeeds machine g (slotBefore machine g)) ∨
          ∀ e ∈ archive.entries, IsExecutable e → Lands machine archive e) ∧
        ∀ g ∈ globbed archive.entries, IsExecutable g → ¬ Torn machine g := by
  have hrun : releaseCommand release machine = update release machine tag := by
    rw [releaseCommand, h]
  rw [hrun]
  by_cases hunpacks : ∃ archive, Unpacks release machine tag archive
  · obtain ⟨archive, hunpacked⟩ := hunpacks
    obtain ⟨q, hran, hfiles, hstatus⟩ := update_unpacked hunpacked
    have hsame : ∀ archive', Unpacks release machine tag archive' → archive' = archive :=
      fun archive' h' => Option.some.inj (h'.2.2.symm.trans hunpacked.2.2)
    have hnone : q.n = 0 ↔ ∀ g ∈ globbed archive.entries, IsExecutable g →
        ¬ Succeeds machine g (slotBefore machine g) := by
      rw [hran.none_counted]
      refine forall₂_congr fun g _ => ?_
      rw [Counted, attempt_succeeds_iff, not_and]
      rfl
    have hwhole := whole_iff rfl hran
    constructor
    · rintro ⟨-, hinstalled, hhalf⟩ archive' hunpacked'
      obtain rfl := hsame archive' hunpacked'
      rw [hfiles] at hhalf
      refine ⟨?_, hwhole.mp hhalf⟩
      by_cases hn : q.n = 0
      · exact .inl (hnone.mp hn)
      · refine .inr fun e he hexecutable => (lands_iff rfl hran he hexecutable).mp ?_
        rw [← hfiles]
        exact hinstalled (hstatus.mpr hn) archive' hunpacked.2.2 e he hexecutable
    · intro hall
      obtain ⟨hlands, htorn⟩ := hall archive hunpacked
      refine ⟨fun hzero => ?_, fun hzero archive' hextracted e he hexecutable => ?_, ?_⟩
      · have hsome := hstatus.mp hzero
        rw [Ne, hnone] at hsome
        push Not at hsome
        obtain ⟨g, hg, hexecutable, -⟩ := hsome
        exact ⟨archive, hunpacked.2.2, g, (List.mem_filter.mp hg).1, hexecutable⟩
      · obtain rfl := Option.some.inj (hextracted.symm.trans hunpacked.2.2)
        rcases hlands with hnot | hlands
        · exact absurd (hnone.mpr hnot) (hstatus.mp hzero)
        · rw [hfiles]
          exact (lands_iff rfl hran he hexecutable).mpr (hlands e he hexecutable)
      · rw [hfiles]
        exact hwhole.mpr htorn
  · push Not at hunpacks
    obtain ⟨hstatus, hfiles⟩ := update_stopped hunpacks
    refine ⟨fun _ archive harchive => absurd harchive (hunpacks archive), fun _ => ⟨?_, ?_, ?_⟩⟩
    · rw [hstatus]
      exact nofun
    · rw [hstatus]
      exact nofun
    · rw [hfiles]
      exact fun _ hhalf => hhalf

/-- A release of two executable files; the copy of the second ends as given. -/
def twoFiles (second : CopyOutcome) : Machine where
  redirect := "location: https://github.com/o/r/releases/tag/v1.2.3".toList
  api := []
  answers _ := none
  command := ([], 0)
  mktemp := true
  download _ := true
  extracted := some ⟨[⟨['a'], true, true, ['1']⟩, ⟨['b'], true, true, ['2']⟩], by decide⟩
  copy name := if name = ['b'] then second else .done true
  rename _ := true
  chmod _ := true
  files _ := none

def bareRelease : ReleaseStep :=
  ⟨none, ⟨"api", 1⟩, "o/r", "/opt/r/bin/r", "r-\x7btag\x7d.tar.gz", "/opt/r/bin", none, none⟩

theorem verdict_twoFiles (second : CopyOutcome) :
    verdict bareRelease (twoFiles second) = .update "v1.2.3".toList := by
  have hsame : verdict bareRelease (twoFiles second) =
      verdict bareRelease (twoFiles (.done true)) := rfl
  rw [hsame]
  decide +kernel

theorem failsClosed_two_files :
    FailsClosed (twoFiles (.done true)) (releaseCommand bareRelease (twoFiles (.done true))) := by
  refine (failsClosed_iff (verdict_twoFiles (.done true))).mpr ?_
  rintro archive ⟨-, -, hextracted⟩
  obtain rfl := Option.some.inj hextracted
  refine ⟨.inr ?_, ?_⟩
  · intro e he _
    have hcases : e = ⟨['a'], true, true, ['1']⟩ ∨ e = ⟨['b'], true, true, ['2']⟩ := by simpa using he
    rcases hcases with rfl | rfl
    · exact .installed (by decide) (by decide) ⟨⟨true, rfl⟩, by decide, nofun, nofun⟩ (.inl rfl)
    · exact .installed (by decide) (by decide) ⟨⟨true, rfl⟩, by decide, nofun, nofun⟩ (.inl rfl)
  · rintro g - - ⟨⟨part, hcopy⟩, -⟩
    have hdone : (twoFiles (.done true)).copy g.name = .done true := ite_self _
    rw [hdone] at hcopy
    cases hcopy

/-- One file that is installed hides that the other is not. -/
theorem failed_copy_hidden :
    ¬ ∀ (release : ReleaseStep) (machine : Machine) (tag : Text),
      verdict release machine = .update tag →
        FailsClosed machine (releaseCommand release machine) := by
  intro h
  have hclosed := h bareRelease (twoFiles (.failed none)) _ (verdict_twoFiles _)
  have hstatus : (releaseCommand bareRelease (twoFiles (.failed none))).status = 0 := by
    decide +kernel
  have hmissing : (releaseCommand bareRelease (twoFiles (.failed none))).files ['b'] = none := by
    decide +kernel
  have hinstalled := hclosed.installed hstatus _ rfl ⟨['b'], true, true, ['2']⟩ (by simp)
    ⟨rfl, rfl⟩
  rw [hmissing] at hinstalled
  cases hinstalled

end Closed

end Shellflow.Release
