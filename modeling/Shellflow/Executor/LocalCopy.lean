import Shellflow.Lib.Disk

/-! The local copy of `@copy --delete`: the new tree is staged next to the destination, and then
takes its place. -/
namespace Shellflow
open Disk.Store

/-- A destination: the directory it is in, its last component, and whether its path names that
directory. -/
structure LocalDst where
  dir : Disk.Path
  name : String
  hasParent : Bool

namespace LocalDst

def location (dst : LocalDst) : Disk.Path := dst.dir ++ [dst.name]

def staging (dst : LocalDst) : Disk.Path := dst.dir ++ [dst.name ++ ".shellflow-new"]

end LocalDst

/-- How `cp` ends, with what it leaves at the staging path when it does not finish; a command that
breaks off was not started, timed out or was cancelled. -/
inductive CopyEnd
  | finished
  | exited (partialTree : Disk.Tree)
  | broken (partialTree : Disk.Tree)

/-- Where each operation fails, if it does. A removal that fails says what it removed. -/
structure Faults where
  createParent : Option Nat
  removeStaging : Option (Disk.Path → Bool)
  createStagingParent : Option Nat
  copy : CopyEnd
  removeOld : Option (Disk.Path → Bool)
  rename : Bool
  cleanUp : Option (Disk.Path → Bool)

inductive CopyError
  | createParent
  | removeStaging
  | copyBroken
  | cleanUp
  | copyExited
  | removeOld
  | rename
deriving DecidableEq, Repr

/-- An error comes with the disk it leaves. -/
abbrev Attempt := Except (CopyError × Disk.Store) Disk.Store

def orFail (o : Outcome) (error : CopyError) : Attempt :=
  if o.done then .ok o.disk else .error (error, o.disk)

section LocalCopy

variable (faults : Faults) (src : Disk.Path) (dst : LocalDst)

def createParent (disk : Disk.Store) : Attempt :=
  if dst.hasParent then orFail (disk.createDirAll dst.dir faults.createParent) .createParent
  else .ok disk

/-- The disk `cp` works on; that the staging directory could not be made is no error yet. -/
def prepare (disk : Disk.Store) : Attempt := do
  let disk ← createParent faults dst disk
  let disk ← orFail (disk.remove dst.staging faults.removeStaging) .removeStaging
  .ok (if dst.hasParent then (disk.createDirAll dst.dir faults.createStagingParent).disk else disk)

/-- The clean-up of the staging path, and then the error it is for. -/
def dropStaging (disk : Disk.Store) (error : CopyError) : Attempt := do
  let disk ← orFail (disk.remove dst.staging faults.cleanUp) .cleanUp
  .error (error, disk)

/-- A source that is not there makes `cp` exit with nothing copied. -/
def copyTree (disk : Disk.Store) : Attempt :=
  match faults.copy with
  | .broken partialTree => .error (.copyBroken, disk.replace dst.staging partialTree)
  | .exited partialTree => dropStaging faults dst (disk.replace dst.staging partialTree) .copyExited
  | .finished =>
    if (disk src).isNone then dropStaging faults dst disk .copyExited
    else .ok (disk.replace dst.staging (disk.treeAt src))

/-- The old tree goes, and the staged one is renamed into its place. -/
def swap (disk : Disk.Store) : Attempt :=
  let removed := disk.remove dst.location faults.removeOld
  if removed.done then
    let renamed := removed.disk.rename dst.staging dst.location faults.rename
    if renamed.done then .ok renamed.disk else dropStaging faults dst renamed.disk .rename
  else dropStaging faults dst removed.disk .removeOld

def runLocalCopyDelete (disk : Disk.Store) : Attempt := do
  let disk ← prepare faults dst disk
  let disk ← copyTree faults src dst disk
  swap faults dst disk

/-- Somewhere on the disk there is all of the tree: at the destination or at the staging path. -/
def OnDisk (disk : Disk.Store) (tree : Disk.Tree) : Prop :=
  (disk.treeAt dst.location).Includes tree ∨ (disk.treeAt dst.staging).Includes tree

/-- The previous destination is still complete on the disk, or the new tree that `cp` finished. -/
def NotLost (disk after : Disk.Store) : Prop :=
  OnDisk dst after (disk.treeAt dst.location) ∨
    ∃ ready, prepare faults dst disk = .ok ready ∧ faults.copy = .finished ∧
      (ready src).isSome = true ∧ OnDisk dst after (ready.treeAt src)

/-- What the swap leaves still includes the previous tree or the new one: `atDst` is left at the
destination, and the clean-up leaves its part of the new tree at the staging path. -/
def SomeTreeLeft (prev new atDst : Disk.Tree) : Prop :=
  (atDst.Includes prev ∨ (left new faults.cleanUp).Includes prev) ∨
    atDst.Includes new ∨ (left new faults.cleanUp).Includes new

/-- The removal of the old tree and the rename do not fail, or what they leave is enough. -/
def SwapSafe (prev new : Disk.Tree) : Prop :=
  match faults.removeOld with
  | some gone => SomeTreeLeft faults prev new (prev.without gone)
  | none => faults.rename = false ∨ SomeTreeLeft faults prev new .empty

end LocalCopy

section Keeps

/-- Done or failed, the attempt leaves this tree at the path. -/
def KeepsAt (p : Disk.Path) (tree : Disk.Tree) : Attempt → Prop
  | .ok disk => disk.treeAt p = tree
  | .error (_, disk) => disk.treeAt p = tree

theorem keepsAt_orFail {p : Disk.Path} {tree : Disk.Tree} {o : Outcome}
    (h : o.disk.treeAt p = tree) (error : CopyError) : KeepsAt p tree (orFail o error) := by
  unfold orFail
  split
  · exact h
  · exact h

theorem keepsAt_bind {p : Disk.Path} {tree : Disk.Tree} {a : Attempt} {next : Disk.Store → Attempt}
    (h : KeepsAt p tree a) (hnext : ∀ disk, disk.treeAt p = tree → KeepsAt p tree (next disk)) :
    KeepsAt p tree (a >>= next) := by
  cases a with
  | ok disk => exact hnext disk h
  | error e => exact h

variable {faults : Faults} {src : Disk.Path} {dst : LocalDst}

theorem LocalDst.staging_apart (dst : LocalDst) : Disk.Path.Apart dst.staging dst.location :=
  Disk.Path.apart_siblings fun h => by
    have hlen := congrArg String.length h
    simp at hlen

theorem LocalDst.location_apart (dst : LocalDst) : Disk.Path.Apart dst.location dst.staging :=
  Disk.Path.apart_siblings fun h => by
    have hlen := congrArg String.length h
    simp at hlen

theorem LocalDst.length_location (dst : LocalDst) : dst.location.length > dst.dir.length := by
  simp [LocalDst.location]

theorem keepsAt_createParent (disk : Disk.Store) :
    KeepsAt dst.location (disk.treeAt dst.location) (createParent faults dst disk) := by
  unfold createParent
  split
  · exact keepsAt_orFail (treeAt_createDirAll dst.length_location disk _) _
  · rfl

theorem keepsAt_dropStaging {disk : Disk.Store} {tree : Disk.Tree}
    (h : disk.treeAt dst.location = tree) (error : CopyError) :
    KeepsAt dst.location tree (dropStaging faults dst disk error) := by
  have hremove := treeAt_remove_apart dst.staging_apart disk faults.cleanUp
  exact keepsAt_bind (keepsAt_orFail (hremove.trans h) _) fun _ h => h

/-- Nothing before the swap touches the destination. -/
theorem keepsAt_prepare (disk : Disk.Store) :
    KeepsAt dst.location (disk.treeAt dst.location) (prepare faults dst disk) := by
  refine keepsAt_bind (keepsAt_createParent disk) fun made hmade => ?_
  have hremove := treeAt_remove_apart dst.staging_apart made faults.removeStaging
  refine keepsAt_bind (keepsAt_orFail (hremove.trans hmade) _) fun cleared hcleared => ?_
  have hmake := treeAt_createDirAll dst.length_location cleared faults.createStagingParent
  show treeAt _ dst.location = _
  split
  · exact hmake.trans hcleared
  · exact hcleared

theorem keepsAt_copyTree (disk : Disk.Store) :
    KeepsAt dst.location (disk.treeAt dst.location) (copyTree faults src dst disk) := by
  have hreplace := fun tree => treeAt_replace_apart dst.staging_apart disk tree
  unfold copyTree
  split
  · exact hreplace _
  · exact keepsAt_dropStaging (hreplace _) _
  · split
    · exact keepsAt_dropStaging rfl _
    · exact hreplace _

end Keeps

section Swap

variable {faults : Faults} {src : Disk.Path} {dst : LocalDst}

/-- The clean-up ends in an error, with what it left at the staging path. -/
theorem dropStaging_eq (faults : Faults) (dst : LocalDst) (disk : Disk.Store) (error : CopyError) :
    ∃ e, dropStaging faults dst disk error =
      .error (e, (disk.remove dst.staging faults.cleanUp).disk) := by
  unfold dropStaging orFail
  split
  · exact ⟨error, rfl⟩
  · exact ⟨.cleanUp, rfl⟩

theorem dropStaging_ne_ok (disk : Disk.Store) (error : CopyError) {after : Disk.Store} :
    dropStaging faults dst disk error ≠ .ok after := by
  obtain ⟨e, he⟩ := dropStaging_eq faults dst disk error
  rw [he]
  exact fun h => by cases h

theorem copyTree_finished {disk : Disk.Store} (hcopy : faults.copy = .finished)
    (hsrc : (disk src).isSome = true) :
    copyTree faults src dst disk = .ok (disk.replace dst.staging (disk.treeAt src)) := by
  have hthere : ¬ (disk src).isNone = true := by
    rw [Option.isNone_iff_eq_none]
    exact Option.isSome_iff_ne_none.mp hsrc
  simp only [copyTree, hcopy, if_neg hthere]

/-- The copy is complete exactly when `cp` finished on a source that was there. -/
theorem copyTree_ok {disk staged : Disk.Store} (h : copyTree faults src dst disk = .ok staged) :
    (faults.copy = .finished ∧ (disk src).isSome = true) ∧
      staged = disk.replace dst.staging (disk.treeAt src) := by
  unfold copyTree at h
  split at h
  · cases h
  · exact absurd h (dropStaging_ne_ok _ _)
  next hcopy =>
    split at h
    · exact absurd h (dropStaging_ne_ok _ _)
    next hsrc =>
      refine ⟨⟨hcopy, ?_⟩, (Except.ok.inj h).symm⟩
      simpa [Option.isSome_iff_ne_none, Option.isNone_iff_eq_none] using hsrc

theorem swap_of_removeOld {disk : Disk.Store} {gone : Disk.Path → Bool}
    (h : faults.removeOld = some gone) :
    swap faults dst disk =
      dropStaging faults dst (disk.remove dst.location (some gone)).disk .removeOld := by
  simp only [swap, h, remove, Bool.false_eq_true, if_false]

theorem swap_of_rename {disk : Disk.Store} (h : faults.removeOld = none)
    (hrename : faults.rename = true) :
    swap faults dst disk =
      dropStaging faults dst (disk.remove dst.location none).disk .rename := by
  simp only [swap, h, hrename, remove, rename, Bool.true_or, if_true, Bool.false_eq_true,
    if_false]

theorem swap_done {disk : Disk.Store} (h : faults.removeOld = none) (hrename : faults.rename = false)
    (hsource : (disk.remove dst.location none).disk dst.staging ≠ none) :
    ∃ after, swap faults dst disk = .ok after := by
  have hthere : ¬ ((disk.replace dst.location .empty) dst.staging).isNone = true := by
    rw [Option.isNone_iff_eq_none]
    exact hsource
  simp only [swap, h, hrename, remove, rename, Bool.false_or, if_neg hthere, if_true]
  exact ⟨_, rfl⟩

/-- After the clean-up there is a complete tree on the disk when enough of one was left. -/
theorem onDisk_dropStaging {disk : Disk.Store} {prev new atDst : Disk.Tree}
    (hdst : disk.treeAt dst.location = atDst) (hstaging : disk.treeAt dst.staging = new) :
    (OnDisk dst (disk.remove dst.staging faults.cleanUp).disk prev ∨
      OnDisk dst (disk.remove dst.staging faults.cleanUp).disk new) ↔
        SomeTreeLeft faults prev new atDst := by
  unfold OnDisk SomeTreeLeft
  rw [treeAt_remove_apart dst.staging_apart, treeAt_remove, hdst, hstaging]

/-- A failed swap leaves a complete tree exactly when it is a safe one. -/
theorem swap_onDisk_iff {staged : Disk.Store} {prev new : Disk.Tree}
    (hprev : staged.treeAt dst.location = prev) (hnew : staged.treeAt dst.staging = new)
    (hroot : new [] ≠ none) :
    (∀ e after, swap faults dst staged = .error (e, after) →
      OnDisk dst after prev ∨ OnDisk dst after new) ↔ SwapSafe faults prev new := by
  have hstagingAfter : ∀ failsWith, (staged.remove dst.location failsWith).disk.treeAt dst.staging =
      new := fun failsWith => (treeAt_remove_apart dst.location_apart staged failsWith).trans hnew
  have hend : ∀ {disk : Disk.Store} {atDst : Disk.Tree} (error : CopyError),
      swap faults dst staged = dropStaging faults dst disk error →
      disk.treeAt dst.location = atDst → disk.treeAt dst.staging = new →
      ((∀ e after, swap faults dst staged = .error (e, after) →
        OnDisk dst after prev ∨ OnDisk dst after new) ↔ SomeTreeLeft faults prev new atDst) := by
    intro disk atDst error hswap hdst hstaging
    obtain ⟨e, he⟩ := dropStaging_eq faults dst disk error
    rw [hswap, he, ← onDisk_dropStaging hdst hstaging]
    constructor
    · exact fun h => h e _ rfl
    · intro h e' after heq
      cases heq
      exact h
  unfold SwapSafe
  cases hold : faults.removeOld with
  | some gone =>
    refine hend .removeOld (swap_of_removeOld hold) ?_ (hstagingAfter (some gone))
    rw [treeAt_remove, hprev]
    rfl
  | none =>
    cases hrename : faults.rename with
    | true =>
      have hempty : (staged.remove dst.location none).disk.treeAt dst.location = .empty :=
        treeAt_remove staged dst.location none
      rw [hend .rename (swap_of_rename hold hrename) hempty (hstagingAfter none)]
      exact ⟨Or.inr, fun h => h.elim (fun h => by cases h) id⟩
    | false =>
      have hsource : (staged.remove dst.location none).disk dst.staging ≠ none := by
        have hstaging := congrFun (hstagingAfter none) []
        rw [treeAt, List.append_nil] at hstaging
        rw [hstaging]
        exact hroot
      obtain ⟨done, hdone⟩ := swap_done hold hrename hsource
      refine ⟨fun _ => Or.inl rfl, fun _ e after h => ?_⟩
      rw [hdone] at h
      cases h

theorem run_of_prepare {disk ready : Disk.Store} (h : prepare faults dst disk = .ok ready) :
    runLocalCopyDelete faults src dst disk =
      copyTree faults src dst ready >>= swap faults dst := by
  unfold runLocalCopyDelete
  rw [h]
  rfl

/-- A failed copy loses nothing, exactly when the swap is not reached or is a safe one. -/
theorem runLocalCopyDelete_notLost_iff (faults : Faults) (src : Disk.Path) (dst : LocalDst)
    (disk : Disk.Store) :
    (∀ e after, runLocalCopyDelete faults src dst disk = .error (e, after) →
      NotLost faults src dst disk after) ↔
        ∀ ready, prepare faults dst disk = .ok ready → faults.copy = .finished →
          (ready src).isSome = true →
            SwapSafe faults (disk.treeAt dst.location) (ready.treeAt src) := by
  have hkept : ∀ {after : Disk.Store}, after.treeAt dst.location = disk.treeAt dst.location →
      NotLost faults src dst disk after := fun h => .inl (.inl (h ▸ Disk.Tree.Includes.refl _))
  have hprepared : KeepsAt dst.location (disk.treeAt dst.location) (prepare faults dst disk) :=
    keepsAt_prepare disk
  cases hprepare : prepare faults dst disk with
  | error failed =>
    rw [hprepare] at hprepared
    have hrun : runLocalCopyDelete faults src dst disk = .error failed := by
      unfold runLocalCopyDelete
      rw [hprepare]
      rfl
    constructor
    · intro _ ready h
      cases h
    · intro _ e after h
      rw [hrun] at h
      cases h
      exact hkept hprepared
  | ok ready =>
    rw [hprepare] at hprepared
    have hcopied : KeepsAt dst.location (ready.treeAt dst.location)
        (copyTree faults src dst ready) := keepsAt_copyTree ready
    have hrun : runLocalCopyDelete faults src dst disk =
        copyTree faults src dst ready >>= swap faults dst := run_of_prepare hprepare
    simp only [Except.ok.injEq, forall_eq']
    cases hcopy : copyTree faults src dst ready with
    | error failed =>
      rw [hcopy] at hcopied hrun
      constructor
      · -- a finished copy of a source that is there is no failure
        intro _ hfinished hsrc
        rw [copyTree_finished hfinished hsrc] at hcopy
        cases hcopy
      · intro _ e after h
        rw [hrun] at h
        cases h
        exact hkept (hcopied.trans hprepared)
    | ok staged =>
      rw [hcopy] at hcopied hrun
      obtain ⟨⟨hfinished, hsrc⟩, hstaged⟩ := copyTree_ok hcopy
      have hnew : staged.treeAt dst.staging = ready.treeAt src := by
        rw [hstaged, treeAt_replace]
      have hroot : ready.treeAt src [] ≠ none := by
        rw [treeAt, List.append_nil]
        exact Option.isSome_iff_ne_none.mp hsrc
      have hlost : ∀ after, NotLost faults src dst disk after ↔
          OnDisk dst after (disk.treeAt dst.location) ∨ OnDisk dst after (ready.treeAt src) := by
        intro after
        refine or_congr_right ⟨?_, fun h => ⟨ready, hprepare, hfinished, hsrc, h⟩⟩
        intro hother
        obtain ⟨other, hother, -, -, h⟩ := hother
        rw [hprepare] at hother
        cases hother
        exact h
      rw [hrun]
      simp only [hlost, hfinished, hsrc, forall_const]
      exact swap_onDisk_iff (hcopied.trans hprepared) hnew hroot

end Swap

/-- A destination and a source with a file each, and a rename that fails. -/
def twoFiles : Disk.Store := fun q =>
  if q = ["srv"] then some .dir
  else if q = ["srv", "app"] then some (.file [1])
  else if q = ["new"] then some (.file [2])
  else none

theorem runLocalCopyDelete_loses_both : ¬ ∀ faults src dst disk e after,
    runLocalCopyDelete faults src dst disk = .error (e, after) →
      NotLost faults src dst disk after := by
  intro hall
  have hlost := hall ⟨none, none, none, .finished, none, true, none⟩ ["new"] ⟨["srv"], "app", true⟩
    twoFiles .rename _ rfl
  cases hlost with
  | inl hprev =>
    cases hprev with
    | inl h => cases h [] (.file [1]) rfl
    | inr h => cases h [] (.file [1]) rfl
  | inr hnew =>
    obtain ⟨ready, hready, -, -, h⟩ := hnew
    cases hready
    cases h with
    | inl h => cases h [] (.file [2]) rfl
    | inr h => cases h [] (.file [2]) rfl

end Shellflow
