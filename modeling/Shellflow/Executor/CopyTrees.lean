import Shellflow.Lib.Overlay
import Shellflow.Executor.Placement

/-! What a copy entry leaves at its destination: by the local copy, and by the rsync transfer of the
same entry. -/
namespace Shellflow.CopyTrees
open Disk

/-- The last component of a path, whatever slashes follow it. -/
def lastText (path : String) : String := baseName (Placement.trimSlashes path)

def endsInDots (path : String) : Bool := lastText path == "." || lastText path == ".."

/-- A path that ends in no name of its own. -/
def unnamed (path : String) : Bool := endsInDots path || (fileName path).isNone

/-- What is copied, read when the copy starts; it lies outside the destination. -/
structure Source where
  text : String
  tree : Tree
  root : Node
  rooted : tree [] = some root
  closed : tree.Closed
  file : root ≠ .dir →
    Placement.isContents text = false ∧ lastText text ≠ "" ∧ endsInDots text = false

namespace Source

def isDir (src : Source) : Bool := src.root == .dir

def name (src : Source) : String := lastText src.text

/-- `cp` puts such a directory into another one without a name. -/
def nameless (src : Source) : Bool := src.name == "" || endsInDots src.text

end Source

/-- The machine with the destination: a command starts in the directory `base`. -/
structure Here where
  base : Path
  disk : Store
  tilde : String → Option Path
  closed : Tree.Closed disk
  entered : ∀ q, q <+: base → disk q = some .dir
  tilde_apart : ∀ name there, tilde name = some there → ¬ base ++ [name] <+: there

/-- A nonempty destination. -/
structure Entry where
  src : Source
  dst : String
  delete : Bool
  named : dst ≠ ""

/-- Where a path starts. -/
def rootOf (base : Path) (path : String) : Path := if Str.startsWith path "/" then [] else base

def locate (base : Path) (path : String) : Path := rootOf base path ++ pathParts path

/-- The disk with a directory and all above it. -/
def withDirs (d : Store) (p : Path) : Store := fun q => if q.isPrefixOf p then some .dir else d q

/-- A file on the way is an error. -/
def createDirs (d : Store) (p : Path) : Option Store :=
  if p.inits.any (Tree.isLeaf d) then none else some (withDirs d p)

section Local
variable (base : Path) (dst : String) (src : Source)

def createParent (d : Store) : Option Store :=
  match parentDir dst with
  | none => some d
  | some parts => createDirs d (rootOf base dst ++ parts)

/-- `cp -a`: into a directory that is there, and else to the destination itself. A file goes to no
path that asks for a directory. -/
def cpArchive (d : Store) : Store :=
  let p := locate base dst
  if d p = some .dir then
    let target := if src.nameless then p else p ++ [src.name]
    d.replace target (Tree.cpOver (d.treeAt target) src.tree)
  else if unnamed dst || (Str.endsWith dst "/" && !src.isDir) then d
  else d.replace p (Tree.cpOver (d.treeAt p) src.tree)

def stagingAt : Path :=
  match fileName dst with
  | some name => (locate base dst).dropLast ++ [name ++ ".shellflow-new"]
  | none => locate base dst ++ ["dst.shellflow-new"]

/-- A directory that is named by dots, as is the root, is emptied but not removed. -/
def removePath (d : Store) : Bool × Store :=
  let p := locate base dst
  match d p with
  | none => (true, d)
  | some .dir =>
    if unnamed dst then (false, d.replace p Tree.onlyDir)
    else (true, d.replace p Tree.empty)
  | some _ =>
    if Str.endsWith dst "/" || unnamed dst then (false, d) else (true, d.replace p Tree.empty)

/-- The staged tree is renamed into the place of the old one; a file takes no name that asks for a
directory. -/
def moveStaged (d : Store) : Store :=
  let staging := stagingAt base dst
  if unnamed dst || (Str.endsWith dst "/" && !src.isDir) then d.replace staging Tree.empty
  else (d.replace staging Tree.empty).replace (locate base dst) (d.treeAt staging)

def runLocalDelete (d : Store) : Store :=
  let staging := stagingAt base dst
  let d := d.replace staging Tree.empty
  if d staging.dropLast = some .dir then
    match removePath base dst (d.replace staging src.tree) with
    | (true, removed) => moveStaged base dst src removed
    | (false, left) => left.replace staging Tree.empty
  else d

/-- A local copy step that is run. -/
def runCopyStepLocal (delete : Bool) (d : Store) : Store :=
  match createParent base dst d with
  | none => d
  | some d => if delete then runLocalDelete base dst src d else cpArchive base dst src d

end Local

/-- The target of the remote transfer is this machine. -/
def Here.remote (here : Here) : Placement.Remote where
  home := here.base
  isDir q := here.disk q == some .dir
  isFile := Tree.isLeaf here.disk
  tilde := here.tilde
  entered q hq := by simp [Tree.isLeaf, here.entered q hq]
  tilde_apart := here.tilde_apart

open Classical in
/-- The way of rsync: a directory makes room for a file when it is empty, or when files that are not
sent are deleted; a file always makes room. -/
noncomputable def rsyncOver (delete : Bool) (dst src : Tree) : Tree :=
  Tree.overlay (fun q => decide (src.isLeaf q = true ∧ dst q = some .dir ∧ delete = false ∧
    ∃ name, dst (q ++ [name]) ≠ none)) dst src

/-- The contents of a directory are mirrored when files that are not sent are deleted. -/
noncomputable def writeRemote (src : Source) (delete : Bool) (t : Tree) : Tree :=
  if src.isDir && delete then src.tree else rsyncOver delete t src.tree

/-- The transfer makes its directory, and sends each source to where it lands. -/
noncomputable def runRemote (here : Here) (entry : Entry) : Store :=
  match Placement.runRsyncTransfer here.remote (fun _ => entry.src.isDir)
      ⟨[entry.src.text], entry.dst⟩ with
  | none => here.disk
  | some placed =>
    placed.landed.foldl (fun d p => d.replace p (writeRemote entry.src entry.delete (d.treeAt p)))
      (withDirs here.disk placed.created)

def runLocal (here : Here) (entry : Entry) : Store → Store :=
  runCopyStepLocal here.base entry.dst entry.src entry.delete

/-- Running the step once more changes nothing. -/
def Settles (here : Here) (entry : Entry) : Prop :=
  runLocal here entry (runLocal here entry here.disk) = runLocal here entry here.disk

/-- The destination is the same path to both, and there is the same tree under it. -/
def SameTree (here : Here) (entry : Entry) : Prop :=
  here.remote.locateRemote entry.dst = locate here.base entry.dst ∧
    (runLocal here entry here.disk).treeAt (locate here.base entry.dst) =
      (runRemote here entry).treeAt (locate here.base entry.dst)

section Trees
variable (src : Source) {t : Tree}

theorem overlay_root_kept {keeps : Path → Bool} {dst : Tree} (h : keeps [] = true) :
    Tree.overlay keeps dst src.tree = dst := by
  funext q
  rw [Tree.overlay, if_pos (List.any_eq_true.mpr ⟨[], (List.mem_inits [] q).mpr List.nil_prefix, h⟩)]

/-- Over nothing the source is written as it is. -/
theorem overlay_fresh {keeps : Path → Bool} {dst : Tree} (hfree : ∀ q, keeps q = false)
    (hdst : ∀ q, q ≠ [] → dst q = none) : Tree.overlay keeps dst src.tree = src.tree := by
  funext q
  have hany : ¬ q.inits.any keeps = true := by simp [hfree]
  rw [Tree.overlay, if_neg hany]
  cases hq : src.tree q with
  | some node => rfl
  | none =>
    have hne : q ≠ [] := by
      intro hroot
      rw [hroot, src.rooted] at hq
      cases hq
    simp [hdst q hne]

theorem isDir_iff : src.isDir = true ↔ src.root = .dir := by simp [Source.isDir]

theorem file_below (hsrc : src.isDir = false) {q : Path} (hq : q ≠ []) : src.tree q = none := by
  refine src.closed.below ?_ hq
  rw [src.rooted]
  intro hdir
  rw [(isDir_iff src).mpr (Option.some.inj hdir)] at hsrc
  cases hsrc

theorem leaf_root (hsrc : src.isDir = false) : src.tree.isLeaf [] = true := by
  have hroot : src.root ≠ .dir := fun h => by rw [(isDir_iff src).mpr h] at hsrc; cases hsrc
  exact Tree.isLeaf_iff.mpr ⟨src.root, src.rooted, hroot⟩

theorem dir_root (hsrc : src.isDir = true) : src.tree [] = some .dir := by
  rw [src.rooted, (isDir_iff src).mp hsrc]

theorem below_of_not_dir (ht : t.Closed) (hroot : t [] ≠ some .dir) : ∀ q, q ≠ [] → t q = none :=
  fun _ hq => ht.below hroot hq

/-- Over nothing, or a file over a file. -/
theorem cpOver_fresh (ht : t.Closed) (hroot : t [] ≠ some .dir)
    (hkind : src.isDir = true → t [] = none) : Tree.cpOver t src.tree = src.tree := by
  have hbelow := below_of_not_dir ht hroot
  refine overlay_fresh src (fun q => ?_) hbelow
  by_cases hq : q = []
  · rw [hq]
    cases hsrc : src.isDir with
    | true => simp [Tree.clash, Tree.isLeaf, hkind hsrc]
    | false =>
      have hne : src.tree [] ≠ some .dir := by
        rw [src.rooted]
        intro h
        rw [(isDir_iff src).mpr (Option.some.inj h)] at hsrc
        cases hsrc
      simp [Tree.clash, hroot, hne]
  · simp [Tree.clash, Tree.isLeaf, hbelow q hq]

/-- A directory is not written over a file, nor a file over a directory. -/
theorem cpOver_refused (h : (src.isDir = true ∧ t.isLeaf [] = true) ∨
    (src.isDir = false ∧ t [] = some .dir)) : Tree.cpOver t src.tree = t := by
  apply overlay_root_kept
  cases h with
  | inl h => simp [Tree.clash, dir_root src h.1, h.2]
  | inr h => simp [Tree.clash, leaf_root src h.1, h.2]

theorem rsyncOver_fresh (delete : Bool) (ht : ∀ q, q ≠ [] → t q = none) :
    rsyncOver delete t src.tree = src.tree := by
  refine overlay_fresh src (fun q => ?_) ht
  rw [decide_eq_false_iff_not]
  rintro ⟨-, -, -, name, hname⟩
  exact hname (ht (q ++ [name]) (by simp))

/-- A file over a directory. -/
theorem rsyncOver_dir (hsrc : src.isDir = false) (ht : t.Closed) (hdir : t [] = some .dir) :
    rsyncOver false t src.tree = t ↔ ∃ name, t [name] ≠ none := by
  constructor
  · intro h
    by_contra hnone
    have hfree : ∀ q, q ≠ [] → t q = none := by
      intro q
      induction q using List.reverseRecOn with
      | nil => exact fun hq => absurd rfl hq
      | append_singleton front name ih =>
        intro _
        by_contra hsome
        by_cases hfront : front = []
        · exact hnone ⟨name, by rw [hfront] at hsome; exact hsome⟩
        · cases (ht front name hsome).symm.trans (ih hfront)
    have hroot := congrFun h []
    rw [rsyncOver_fresh src false hfree, hdir] at hroot
    have hleaf := leaf_root src hsrc
    simp [Tree.isLeaf, hroot] at hleaf
  · intro h
    apply overlay_root_kept
    simp [leaf_root src hsrc, hdir, h]

end Trees

/-- The source copied into a directory. -/
def cpInto (src : Source) (t : Tree) : Tree :=
  if src.nameless then Tree.cpOver t src.tree
  else Tree.putChild src.name t (Tree.cpOver (t.child src.name) src.tree)

/-- What the local copy makes of the tree at the destination. -/
def localTree (entry : Entry) (t : Tree) : Tree :=
  let slash := Str.endsWith entry.dst "/"
  let refused := unnamed entry.dst || (slash && !entry.src.isDir)
  if entry.delete then
    match t [] with
    | none => if refused then t else entry.src.tree
    | some .dir =>
      if unnamed entry.dst then Tree.onlyDir else if slash && !entry.src.isDir then Tree.empty
      else entry.src.tree
    | some _ => if slash || unnamed entry.dst then t else entry.src.tree
  else if t [] = some .dir then cpInto entry.src t
  else if refused then t
  else Tree.cpOver t entry.src.tree

section Runs
variable (base : Path) (entry : Entry) (d : Store)

theorem treeAt_child (p : Path) (name : String) :
    d.treeAt (p ++ [name]) = Tree.child (d.treeAt p) name := by
  funext q
  simp [Store.treeAt, Tree.child]

theorem treeAt_root (p : Path) : d.treeAt p [] = d p := by simp [Store.treeAt]

theorem cpArchive_eq (hdelete : entry.delete = false) :
    cpArchive base entry.dst entry.src d =
      d.replace (locate base entry.dst) (localTree entry (d.treeAt (locate base entry.dst))) := by
  simp only [cpArchive, localTree, hdelete, treeAt_root, Bool.false_eq_true, if_false]
  by_cases hdir : d (locate base entry.dst) = some .dir
  · simp only [if_pos hdir, cpInto]
    by_cases hname : entry.src.nameless = true
    · simp only [if_pos hname]
    · simp only [if_neg hname, Store.replace_child, treeAt_child]
  · simp only [if_neg hdir]
    split
    · rw [Store.replace_treeAt]
    · rfl

/-- Where the destination has a name, the staging path is beside it. -/
theorem stagingAt_beside {name : String} (h : fileName entry.dst = some name) :
    locate base entry.dst = (locate base entry.dst).dropLast ++ [name] ∧
      stagingAt base entry.dst = (locate base entry.dst).dropLast ++ [name ++ ".shellflow-new"] := by
  have hparts := pathParts_of_fileName h
  have hne : pathParts entry.dst ≠ [] := by rw [hparts]; simp
  have hlocate : locate base entry.dst = (locate base entry.dst).dropLast ++ [name] := by
    conv_lhs => rw [locate, hparts]
    rw [locate, List.dropLast_append_of_ne_nil hne, List.append_assoc]
  exact ⟨hlocate, by rw [stagingAt, h]⟩

theorem staging_apart {name : String} (h : fileName entry.dst = some name) :
    Path.Apart (stagingAt base entry.dst) (locate base entry.dst) ∧
      Path.Apart (locate base entry.dst) (stagingAt base entry.dst) := by
  obtain ⟨hloc, hstaging⟩ := stagingAt_beside base entry h
  have hne : name ++ ".shellflow-new" ≠ name := by
    intro heq
    have hlen := congrArg (fun s => s.toList.length) heq
    simp at hlen
  rw [hstaging]
  constructor
  · have hsib : Path.Apart ((locate base entry.dst).dropLast ++ [name ++ ".shellflow-new"])
        ((locate base entry.dst).dropLast ++ [name]) := Path.apart_siblings hne
    rwa [← hloc] at hsib
  · have hsib : Path.Apart ((locate base entry.dst).dropLast ++ [name])
        ((locate base entry.dst).dropLast ++ [name ++ ".shellflow-new"]) :=
      Path.apart_siblings (Ne.symm hne)
    rwa [← hloc] at hsib

/-- The disk without what an earlier run left beside the destination. -/
def cleared : Store :=
  if entry.delete && (fileName entry.dst).isSome then d.replace (stagingAt base entry.dst) Tree.empty
  else d

/-- The local delete works on the tree at the destination, and clears the path beside it. -/
theorem runLocalDelete_named (hdelete : entry.delete = true) {name : String}
    (hname : fileName entry.dst = some name)
    (hparent : d (locate base entry.dst).dropLast = some .dir) :
    runLocalDelete base entry.dst entry.src d =
      (cleared base entry d).replace (locate base entry.dst)
        (localTree entry (d.treeAt (locate base entry.dst))) := by
  obtain ⟨hloc, hstaging⟩ := stagingAt_beside base entry hname
  obtain ⟨hapart, hapart'⟩ := staging_apart base entry hname
  have hcleared : cleared base entry d = d.replace (stagingAt base entry.dst) Tree.empty := by
    simp [cleared, hdelete, hname]
  have hdir : d.replace (stagingAt base entry.dst) Tree.empty (stagingAt base entry.dst).dropLast =
      some .dir := by
    have hnot : ¬ (stagingAt base entry.dst).isPrefixOf (locate base entry.dst).dropLast = true := by
      rw [List.isPrefixOf_iff_prefix, hstaging]
      exact fun hle => absurd hle.length_le (by simp)
    rw [hstaging, List.dropLast_concat, ← hstaging, Store.replace, Path.below, if_neg hnot]
    exact hparent
  have hkept : ∀ t, d.replace (stagingAt base entry.dst) t (locate base entry.dst) =
      d.treeAt (locate base entry.dst) [] := by
    intro t
    have hroot := congrFun (Store.treeAt_replace_apart hapart d t) []
    simpa [Store.treeAt] using hroot
  have hback : ∀ t, d.replace (stagingAt base entry.dst) t =
      (d.replace (stagingAt base entry.dst) t).replace (locate base entry.dst)
        (d.treeAt (locate base entry.dst)) := by
    intro t
    conv_lhs => rw [← Store.replace_treeAt (d.replace (stagingAt base entry.dst) t)
      (locate base entry.dst), Store.treeAt_replace_apart hapart]
  have hclear : ∀ t u, ((d.replace (stagingAt base entry.dst) t).replace (locate base entry.dst)
      u).replace (stagingAt base entry.dst) Tree.empty =
      (d.replace (stagingAt base entry.dst) Tree.empty).replace (locate base entry.dst) u := by
    intro t u
    rw [Store.replace_comm hapart', Store.replace_replace]
  have hmove : ∀ u, moveStaged base entry.dst entry.src
      ((d.replace (stagingAt base entry.dst) entry.src.tree).replace (locate base entry.dst) u) =
      (d.replace (stagingAt base entry.dst) Tree.empty).replace (locate base entry.dst)
        (if unnamed entry.dst || (Str.endsWith entry.dst "/" && !entry.src.isDir) then u
          else entry.src.tree) := by
    intro u
    simp only [moveStaged, hclear]
    split
    · rfl
    · rw [Store.treeAt_replace_apart hapart', Store.treeAt_replace, Store.replace_replace]
  have hstay : moveStaged base entry.dst entry.src
      (d.replace (stagingAt base entry.dst) entry.src.tree) = _ :=
    (congrArg _ (hback entry.src.tree)).trans (hmove _)
  simp only [runLocalDelete, if_pos hdir, removePath, Store.replace_replace, hkept, hcleared,
    localTree, hdelete, if_true]
  cases hroot : d.treeAt (locate base entry.dst) [] with
  | none => exact hstay
  | some node =>
    have hkeep := (hback Tree.empty).symm
    cases node with
    | dir =>
      cases hdots : unnamed entry.dst with
      | true => simp [hclear]
      | false => simp [hmove, hdots]
    | file content =>
      cases hslash : Str.endsWith entry.dst "/" <;> cases hdots : unnamed entry.dst <;>
        simp [hmove, hslash, hdots, hkeep]
    | link target =>
      cases hslash : Str.endsWith entry.dst "/" <;> cases hdots : unnamed entry.dst <;>
        simp [hmove, hslash, hdots, hkeep]

theorem child_empty {t : Tree} (ht : t.Closed) (hroot : t [] ≠ some .dir) (name : String) :
    Tree.putChild name t Tree.empty = t :=
  Tree.putChild_self (by funext q; exact ht.below hroot (by simp))

/-- Without a name of its own the staging path is in the destination. -/
theorem runLocalDelete_unnamed (hdelete : entry.delete = true) (hname : fileName entry.dst = none)
    (hclosed : (d.treeAt (locate base entry.dst)).Closed) :
    runLocalDelete base entry.dst entry.src d =
      (cleared base entry d).replace (locate base entry.dst)
        (localTree entry (d.treeAt (locate base entry.dst))) := by
  have hdots : unnamed entry.dst = true := by simp [unnamed, hname]
  have hcleared : cleared base entry d = d := by simp [cleared, hname]
  have hstaging : stagingAt base entry.dst = locate base entry.dst ++ ["dst.shellflow-new"] := by
    rw [stagingAt, hname]
  have hroot : ∀ t, d.replace (locate base entry.dst) t (locate base entry.dst) = t [] := by
    intro t
    have htree := congrFun (Store.treeAt_replace d (locate base entry.dst) t) []
    simpa [Store.treeAt] using htree
  rw [hcleared]
  simp only [runLocalDelete, hstaging, List.dropLast_concat, Store.replace_child,
    Store.treeAt_replace, Store.replace_replace, hroot, Tree.putChild_root, Tree.putChild_putChild,
    removePath, hdots, if_true, localTree, hdelete]
  by_cases hdir : d.treeAt (locate base entry.dst) [] = some .dir
  · have honly : Tree.putChild "dst.shellflow-new" Tree.onlyDir Tree.empty = Tree.onlyDir :=
      Tree.putChild_self (by funext q; rfl)
    simp [hdir, honly, Store.treeAt_replace]
  · simp only [if_neg hdir, child_empty hclosed hdir]
    cases hnode : d.treeAt (locate base entry.dst) [] with
    | none => simp
    | some node =>
      cases node with
      | dir => exact absurd hnode hdir
      | file content => simp
      | link target => simp

theorem run_of_created {d' : Store} (hcreate : createParent base entry.dst d = some d')
    (hparent : (fileName entry.dst).isSome = true → d' (locate base entry.dst).dropLast = some .dir)
    (hclosed : entry.delete = true → fileName entry.dst = none →
      (d'.treeAt (locate base entry.dst)).Closed) :
    runCopyStepLocal base entry.dst entry.src entry.delete d =
      (cleared base entry d').replace (locate base entry.dst)
        (localTree entry (d'.treeAt (locate base entry.dst))) := by
  rw [runCopyStepLocal, hcreate]
  cases hdelete : entry.delete with
  | false =>
    have hcleared : cleared base entry d' = d' := by simp [cleared, hdelete]
    rw [hcleared]
    exact cpArchive_eq base entry d' hdelete
  | true =>
    cases hname : fileName entry.dst with
    | none => exact runLocalDelete_unnamed base entry d' hdelete hname (hclosed hdelete hname)
    | some name =>
      exact runLocalDelete_named base entry d' hdelete hname (hparent (by simp [hname]))

end Runs

section Ways
variable (here : Here) (entry : Entry)

theorem withDirs_on {d : Store} {p q : Path} (h : q <+: p) : withDirs d p q = some .dir := by
  have hq : q.isPrefixOf p = true := List.isPrefixOf_iff_prefix.mpr h
  rw [withDirs, if_pos hq]

theorem withDirs_off {d : Store} {p q : Path} (h : ¬ q <+: p) : withDirs d p q = d q := by
  have hq : ¬ q.isPrefixOf p = true := by rwa [List.isPrefixOf_iff_prefix]
  rw [withDirs, if_neg hq]

/-- A file stands on the way to the destination. -/
def wayBlocked : Bool := (locate here.base entry.dst).dropLast.inits.any (Tree.isLeaf here.disk)

/-- The disk with the directories above the destination. -/
def ready : Store := withDirs here.disk (locate here.base entry.dst).dropLast

theorem parent_none (h : parentDir entry.dst = none) :
    (locate here.base entry.dst).dropLast <+: here.base := by
  have hparts : pathParts entry.dst = [] := by
    by_contra hne
    simp [parentDir, hne] at h
  rw [locate, hparts, List.append_nil, rootOf]
  split
  · exact List.nil_prefix
  · exact List.dropLast_prefix _

theorem parent_some {parts : List String} (h : parentDir entry.dst = some parts) :
    rootOf here.base entry.dst ++ parts = (locate here.base entry.dst).dropLast ∧
      locate here.base entry.dst ≠ [] := by
  by_cases hparts : pathParts entry.dst = []
  · simp [parentDir, hparts] at h
  · have hdrop : (pathParts entry.dst).dropLast = parts := by simpa [parentDir, hparts] using h
    rw [locate, List.dropLast_append_of_ne_nil hparts, hdrop]
    exact ⟨rfl, by simp [hparts]⟩

theorem dir_of_entered {q : Path} (h : q <+: here.base) : Tree.isLeaf here.disk q = false := by
  simp [Tree.isLeaf, here.entered q h]

theorem createParent_here : createParent here.base entry.dst here.disk =
    if wayBlocked here entry then none else some (ready here entry) := by
  cases h : parentDir entry.dst with
  | none =>
    have hprefix := parent_none here entry h
    have hfree : wayBlocked here entry = false := by
      rw [wayBlocked, List.any_eq_false]
      intro q hq
      simp [dir_of_entered here (((List.mem_inits q _).mp hq).trans hprefix)]
    have hready : ready here entry = here.disk := by
      funext q
      by_cases hq : q <+: (locate here.base entry.dst).dropLast
      · exact (withDirs_on hq).trans (here.entered q (hq.trans hprefix)).symm
      · exact withDirs_off hq
    simp [createParent, h, hfree, hready]
  | some parts =>
    obtain ⟨hparts, -⟩ := parent_some here entry h
    simp only [createParent, h, createDirs, hparts]
    rfl

theorem treeAt_ready : (ready here entry).treeAt (locate here.base entry.dst) =
    here.disk.treeAt (locate here.base entry.dst) := by
  funext rest
  by_cases hq : locate here.base entry.dst ++ rest <+: (locate here.base entry.dst).dropLast
  · have hlen := hq.length_le
    have hroot : locate here.base entry.dst ++ rest = [] := by
      apply List.eq_nil_of_length_eq_zero
      simp only [List.length_append, List.length_dropLast] at hlen ⊢
      omega
    have hdir := here.entered _ (hroot ▸ List.nil_prefix)
    exact (withDirs_on hq).trans hdir.symm
  · exact withDirs_off hq

theorem replace_above {d : Store} {p q : Path} {t : Tree} (h : ¬ p <+: q) : d.replace p t q = d q := by
  have hnot : ¬ p.isPrefixOf q = true := by rwa [List.isPrefixOf_iff_prefix]
  rw [Store.replace, Path.below, if_neg hnot]

theorem dirs_cleared {q : Path} (hq : q <+: (locate here.base entry.dst).dropLast) :
    cleared here.base entry (ready here entry) q = some .dir := by
  have hready : ready here entry q = some .dir := withDirs_on hq
  unfold cleared
  split
  · next hcond =>
    obtain ⟨name, hname⟩ := Option.isSome_iff_exists.mp (Bool.and_eq_true _ _ ▸ hcond).2
    rw [replace_above, hready]
    intro hle
    have hlen := hle.length_le
    have hlen' := hq.length_le
    rw [(stagingAt_beside here.base entry hname).2] at hlen
    simp at hlen hlen'
    omega
  · exact hready

/-- With the directories there, and anything at the destination, the parent is not made again. -/
theorem createParent_again (t : Tree) :
    createParent here.base entry.dst
        ((cleared here.base entry (ready here entry)).replace (locate here.base entry.dst) t) =
      some ((cleared here.base entry (ready here entry)).replace (locate here.base entry.dst) t) := by
  cases h : parentDir entry.dst with
  | none => rw [createParent, h]
  | some parts =>
    obtain ⟨hparts, hne⟩ := parent_some here entry h
    have hdirs : ∀ q, q <+: (locate here.base entry.dst).dropLast →
        (cleared here.base entry (ready here entry)).replace (locate here.base entry.dst) t q =
          some .dir := by
      intro q hq
      rw [replace_above, dirs_cleared here entry hq]
      intro hle
      have hlen := (hle.trans hq).length_le
      have hpos := List.length_pos_iff.mpr hne
      simp at hlen
      omega
    have hfree : ¬ (locate here.base entry.dst).dropLast.inits.any (Tree.isLeaf
        ((cleared here.base entry (ready here entry)).replace (locate here.base entry.dst) t)) =
          true := by
      rw [Bool.not_eq_true, List.any_eq_false]
      intro q hq
      simp [Tree.isLeaf, hdirs q ((List.mem_inits q _).mp hq)]
    simp only [createParent, h, createDirs, hparts, if_neg hfree]
    refine congrArg some ?_
    funext q
    by_cases hq : q <+: (locate here.base entry.dst).dropLast
    · exact (withDirs_on hq).trans (hdirs q hq).symm
    · exact withDirs_off hq

/-- The tree at the destination. -/
def Here.found (here : Here) (entry : Entry) : Tree := here.disk.treeAt (locate here.base entry.dst)

theorem closed_found : (here.found entry).Closed := by
  intro q name h
  have hdir := here.closed (locate here.base entry.dst ++ q) name
    (by rwa [Here.found, Store.treeAt, ← List.append_assoc] at h)
  exact hdir

theorem cleared_replace (t : Tree) :
    cleared here.base entry ((cleared here.base entry (ready here entry)).replace
      (locate here.base entry.dst) t) =
      (cleared here.base entry (ready here entry)).replace (locate here.base entry.dst) t := by
  unfold cleared
  split
  · next hcond =>
    obtain ⟨name, hname⟩ := Option.isSome_iff_exists.mp (Bool.and_eq_true _ _ ▸ hcond).2
    rw [Store.replace_comm (staging_apart here.base entry hname).2, Store.replace_replace]
  · rfl

/-- The first run: nothing where a file stands on the way, and else a new tree at the destination. -/
theorem runLocal_here : runLocal here entry here.disk =
    if wayBlocked here entry then here.disk
    else (cleared here.base entry (ready here entry)).replace (locate here.base entry.dst)
      (localTree entry (here.found entry)) := by
  by_cases hblocked : wayBlocked here entry = true
  · rw [if_pos hblocked, runLocal, runCopyStepLocal, createParent_here, if_pos hblocked]
  · have hcreate := createParent_here here entry
    rw [if_neg hblocked] at hcreate ⊢
    have hrun := run_of_created here.base entry here.disk hcreate
      (fun _ => withDirs_on (List.prefix_refl _))
      (fun _ _ => treeAt_ready here entry ▸ closed_found here entry)
    rw [treeAt_ready] at hrun
    exact hrun

theorem closed_onlyDir : Tree.onlyDir.Closed := by
  intro q name h
  simp [Tree.onlyDir] at h

theorem closed_unnamed (hdelete : entry.delete = true) (hname : fileName entry.dst = none) :
    (localTree entry (here.found entry)).Closed := by
  have hdots : unnamed entry.dst = true := by simp [unnamed, hname]
  have hfound := closed_found here entry
  simp only [localTree, hdelete, hdots, if_true, Bool.true_or, Bool.or_true]
  split
  · exact hfound
  · exact closed_onlyDir
  · exact hfound

theorem settles_iff : Settles here entry ↔ wayBlocked here entry = true ∨
    localTree entry (localTree entry (here.found entry)) = localTree entry (here.found entry) := by
  have hfirst := runLocal_here here entry
  by_cases hblocked : wayBlocked here entry = true
  · rw [if_pos hblocked] at hfirst
    rw [Settles, hfirst, hfirst]
    exact ⟨fun _ => .inl hblocked, fun _ => rfl⟩
  · rw [if_neg hblocked] at hfirst
    have hparent : (fileName entry.dst).isSome = true →
        (cleared here.base entry (ready here entry)).replace (locate here.base entry.dst)
          (localTree entry (here.found entry)) (locate here.base entry.dst).dropLast = some .dir := by
      intro hname
      obtain ⟨name, hname⟩ := Option.isSome_iff_exists.mp hname
      rw [replace_above, dirs_cleared here entry (List.prefix_refl _)]
      intro hle
      have hlen := hle.length_le
      rw [(stagingAt_beside here.base entry hname).1] at hlen
      simp only [List.dropLast_concat, List.length_append, List.length_singleton] at hlen
      omega
    have hrun := run_of_created here.base entry _
      (createParent_again here entry (localTree entry (here.found entry))) hparent
      (fun hdelete hname => by
        rw [Store.treeAt_replace]
        exact closed_unnamed here entry hdelete hname)
    rw [Store.treeAt_replace, cleared_replace, Store.replace_replace] at hrun
    rw [Settles, hfirst, runLocal, hrun]
    simp only [hblocked, Bool.false_eq_true, false_or]
    exact ⟨Store.replace_inj, fun h => by rw [h]⟩

end Ways

section Remote
variable (here : Here) (entry : Entry)

theorem found_root : here.found entry [] = here.disk (locate here.base entry.dst) :=
  treeAt_root here.disk _

theorem inits_any_iff (p : Path) (f : Path → Bool) :
    p.inits.any f = true ↔ p.dropLast.inits.any f = true ∨ f p = true := by
  induction p using List.reverseRecOn with
  | nil => simp
  | append_singleton front name =>
    simp only [List.any_eq_true, List.mem_inits, List.dropLast_concat, List.prefix_concat_iff]
    constructor
    · rintro ⟨q, hq | hq, hf⟩
      · exact .inr (hq ▸ hf)
      · exact .inl ⟨q, hq, hf⟩
    · rintro (⟨q, hq, hf⟩ | hf)
      · exact ⟨q, .inr hq, hf⟩
      · exact ⟨_, .inl rfl, hf⟩

/-- A directory cannot be made over a file, nor below one. -/
theorem blocked_here : here.remote.blocked (locate here.base entry.dst) = true ↔
    wayBlocked here entry = true ∨ (here.found entry).isLeaf [] = true := by
  have hleaf : (here.found entry).isLeaf [] = Tree.isLeaf here.disk (locate here.base entry.dst) := by
    simp [Tree.isLeaf, found_root]
  rw [hleaf]
  exact inits_any_iff _ _

theorem alike_normal : Placement.Alike (Placement.trimSlashes entry.dst ++ "/") entry.dst := by
  have halike := Placement.alike_scpDir entry.named
  by_cases htrim : Placement.trimSlashes entry.dst = ""
  · rw [if_pos htrim] at halike
    rw [htrim]
    exact halike
  · rw [if_neg htrim] at halike
    exact (Placement.alike_slash htrim).trans halike

theorem treeAt_withDirs (d : Store) (p : Path) : (withDirs d p).treeAt p = (d.treeAt p).asDir := by
  funext rest
  by_cases hrest : rest = []
  · rw [hrest]
    exact withDirs_on (by simp)
  · have hnot : ¬ p ++ rest <+: p := by
      intro hle
      have hlen := hle.length_le
      have hpos := List.length_pos_iff.mpr hrest
      simp only [List.length_append] at hlen
      omega
    rw [Tree.asDir, if_neg hrest]
    exact withDirs_off hnot

variable (hplain : here.remote.expansion entry.dst = none)
include hplain

theorem remote_place : here.remote.locateRemote entry.dst = locate here.base entry.dst :=
  Placement.locateRemote_of_none here.remote hplain

/-- What the transfer of a directory leaves at the destination. -/
theorem remote_dir (hsrc : entry.src.isDir = true) :
    (runRemote here entry).treeAt (locate here.base entry.dst) =
      if wayBlocked here entry = true ∨ (here.found entry).isLeaf [] = true then here.found entry
      else if entry.delete then entry.src.tree
      else rsyncOver false (here.found entry).asDir entry.src.tree := by
  have halike := alike_normal entry
  have hslash : Str.endsWith (Placement.trimSlashes entry.dst ++ "/") "/" = true :=
    Placement.endsWith_slash_iff.mpr ⟨_, rfl⟩
  have hcontents : Placement.isContents (Placement.trimSlashes entry.src.text ++ "/") = true := by
    rw [Placement.isContents, Placement.endsWith_slash_iff.mpr ⟨_, rfl⟩, Bool.true_or]
  have hmade : here.remote.locate (Placement.trimSlashes entry.dst ++ "/") =
      locate here.base entry.dst := halike.locate here.remote
  have hlands : here.remote.locateRemote (Placement.trimSlashes entry.dst ++ "/") =
      locate here.base entry.dst :=
    (halike.locateRemote here.remote).trans (remote_place here entry hplain)
  have hrun : Placement.runRsyncTransfer here.remote (fun _ => entry.src.isDir)
      ⟨[entry.src.text], entry.dst⟩ =
      if here.remote.blocked (locate here.base entry.dst) then none
      else some ⟨locate here.base entry.dst, [locate here.base entry.dst]⟩ := by
    simp [Placement.runRsyncTransfer, Placement.normalizeCopyPaths, hsrc, Placement.place,
      Placement.rsyncDir, hslash, hmade, Placement.landing, hcontents, hlands]
  rw [runRemote, hrun]
  by_cases hblocked : here.remote.blocked (locate here.base entry.dst) = true
  · rw [if_pos hblocked, if_pos ((blocked_here here entry).mp hblocked)]
    rfl
  · rw [if_neg hblocked, if_neg (fun h => hblocked ((blocked_here here entry).mpr h))]
    simp only [List.foldl_cons, List.foldl_nil, Store.treeAt_replace, treeAt_withDirs, writeRemote,
      hsrc, Bool.true_and]
    cases entry.delete <;> rfl

end Remote

section RemoteFile
variable (here : Here) (entry : Entry)

/-- The directory that the transfer of a file makes. -/
def made : Path := locate here.base (Placement.rsyncDir entry.dst)

theorem rsyncDir_eq (dst : String) :
    Placement.rsyncDir dst = (Placement.dirText dst).getD dst := by
  unfold Placement.rsyncDir Placement.dirText
  split
  · rfl
  · split
    · split <;> rfl
    · rfl

/-- It is the destination itself, or the directory around it. -/
theorem made_cases : made here entry = locate here.base entry.dst ∨
    (Str.endsWith entry.dst "/" = false ∧
      ∃ name, locate here.base entry.dst = made here entry ++ [name]) := by
  rw [made, rsyncDir_eq]
  obtain ⟨hslash, hdir⟩ | ⟨hslash, dir, base, hin, hdir, -⟩ | ⟨hslash, hdir, -⟩ :=
    Placement.dirText_cases entry.named
  · exact .inl (by rw [hdir, Option.getD_some])
  · rw [hdir, Option.getD_some]
    by_cases hdot : base = "."
    · rw [hdot] at hin
      exact .inl (hin.alike_dot.locate here.remote).symm
    · exact .inr ⟨hslash, base, hin.locate here.remote hdot⟩
  · exact .inl (by rw [hdir, Option.getD_none])

theorem baseName_text (src : Source) (h : Placement.isContents src.text = false) :
    baseName src.text = src.name := by
  have hslash : Str.endsWith src.text "/" = false := by
    rw [Placement.isContents, Bool.or_eq_false_iff] at h
    exact h.1
  have htrim : Placement.trimSlashes src.text = src.text := by
    apply String.toList_inj.mp
    rw [Placement.trimSlashes, String.toList_ofList]
    cases hlast : src.text.toList using List.reverseRecOn with
    | nil => rfl
    | append_singleton front c =>
      apply List.rdropWhile_concat_neg
      intro hc
      have hends : Str.endsWith src.text "/" = true := Placement.endsWith_slash_iff.mpr
        ⟨String.ofList front, String.toList_inj.mp (by simpa [hlast] using hc)⟩
      rw [hslash] at hends
      cases hends
  rw [Source.name, lastText, htrim]

variable (hplain : here.remote.expansion entry.dst = none) (hsrc : entry.src.isDir = false)
include hplain hsrc

theorem run_file : Placement.runRsyncTransfer here.remote (fun _ => entry.src.isDir)
    ⟨[entry.src.text], entry.dst⟩ =
    if here.remote.blocked (made here entry) then none
    else some ⟨made here entry,
      [if Str.endsWith entry.dst "/" ||
          here.remote.isDirAfter (made here entry) (locate here.base entry.dst)
        then locate here.base entry.dst ++ [entry.src.name] else locate here.base entry.dst]⟩ := by
  have hroot : entry.src.root ≠ .dir := fun h => by
    rw [(isDir_iff entry.src).mpr h] at hsrc
    cases hsrc
  obtain ⟨hcontents, -, -⟩ := entry.src.file hroot
  have hname := baseName_text entry.src hcontents
  have hlocate : here.remote.locate (Placement.rsyncDir entry.dst) = made here entry := rfl
  simp [Placement.runRsyncTransfer, Placement.normalizeCopyPaths, hsrc, Placement.place, hlocate,
    Placement.landing, hcontents, remote_place here entry hplain, hname]

/-- A file sent to a destination that is made a directory. -/
theorem remote_file_made (hmade : made here entry = locate here.base entry.dst) :
    (runRemote here entry).treeAt (locate here.base entry.dst) =
      if wayBlocked here entry = true ∨ (here.found entry).isLeaf [] = true then here.found entry
      else Tree.putChild entry.src.name (here.found entry).asDir (rsyncOver entry.delete
        ((here.found entry).asDir.child entry.src.name) entry.src.tree) := by
  rw [runRemote, run_file here entry hplain hsrc, hmade, Placement.isDirAfter_self, Bool.or_true,
    if_pos rfl]
  by_cases hblocked : here.remote.blocked (locate here.base entry.dst) = true
  · rw [if_pos hblocked, if_pos ((blocked_here here entry).mp hblocked)]
    rfl
  · rw [if_neg hblocked, if_neg (fun h => hblocked ((blocked_here here entry).mpr h))]
    simp only [List.foldl_cons, List.foldl_nil, writeRemote, hsrc, Bool.false_and,
      Bool.false_eq_true, if_false, Store.replace_child, Store.treeAt_replace, treeAt_child,
      treeAt_withDirs]
    rfl

/-- A file sent to a destination in a directory. -/
theorem remote_file_in {name : String}
    (hmade : locate here.base entry.dst = made here entry ++ [name])
    (hslash : Str.endsWith entry.dst "/" = false) :
    (runRemote here entry).treeAt (locate here.base entry.dst) =
      if wayBlocked here entry = true then here.found entry
      else if here.found entry [] = some .dir then
        Tree.putChild entry.src.name (here.found entry) (rsyncOver entry.delete
          ((here.found entry).child entry.src.name) entry.src.tree)
      else rsyncOver entry.delete (here.found entry) entry.src.tree := by
  have hdrop : made here entry = (locate here.base entry.dst).dropLast := by
    rw [hmade, List.dropLast_concat]
  have hafter : here.remote.isDirAfter (made here entry) (locate here.base entry.dst) =
      (here.found entry [] == some .dir) := by
    rw [hmade, Placement.isDirAfter_below, ← hmade, found_root]
    rfl
  have hblocked : here.remote.blocked (made here entry) = wayBlocked here entry := by
    rw [hdrop]
    rfl
  have hready : withDirs here.disk (made here entry) = ready here entry := by rw [hdrop]; rfl
  rw [runRemote, run_file here entry hplain hsrc, hslash, hafter, hblocked, Bool.false_or]
  by_cases hway : wayBlocked here entry = true
  · rw [if_pos hway, if_pos hway]
    rfl
  · rw [if_neg hway, if_neg hway]
    by_cases hdir : here.found entry [] = some .dir
    · simp only [hdir, beq_self_eq_true, if_true, List.foldl_cons, List.foldl_nil, writeRemote, hsrc,
        Bool.false_and, Bool.false_eq_true, if_false, Store.replace_child, Store.treeAt_replace,
        treeAt_child, hready, treeAt_ready]
      rfl
    · have hno : ¬ (here.found entry [] == some .dir) = true := by simpa using hdir
      simp only [if_neg hno, if_neg hdir, List.foldl_cons, List.foldl_nil, writeRemote, hsrc,
        Bool.false_and, Bool.false_eq_true, if_false, Store.treeAt_replace, hready, treeAt_ready]
      rfl

end RemoteFile

/-- Where a local copy of a directory means what the remote one does, by what is found at the
destination. -/
def DirMeans (entry : Entry) (found : Tree) : Prop :=
  match found [] with
  | none => unnamed entry.dst = false ∧
      (entry.delete = true ∨ cpInto entry.src entry.src.tree = entry.src.tree)
  | some .dir =>
    if entry.delete then unnamed entry.dst = true → entry.src.tree = Tree.onlyDir
    else cpInto entry.src found = rsyncOver false found entry.src.tree
  | some _ => entry.delete = true → (Str.endsWith entry.dst "/" || unnamed entry.dst) = true

section Dir
variable {entry : Entry} {t : Tree}

theorem localTree_none (h : t [] = none) :
    localTree entry t =
      if unnamed entry.dst || (Str.endsWith entry.dst "/" && !entry.src.isDir) then t
      else if entry.delete then entry.src.tree else Tree.cpOver t entry.src.tree := by
  unfold localTree
  cases entry.delete <;> simp [h]

theorem localTree_dir (h : t [] = some .dir) :
    localTree entry t = if entry.delete then
      if unnamed entry.dst then Tree.onlyDir
      else if Str.endsWith entry.dst "/" && !entry.src.isDir then Tree.empty else entry.src.tree
      else cpInto entry.src t := by
  unfold localTree
  cases entry.delete <;> simp [h]

theorem localTree_leaf {node : Node} (h : t [] = some node) (hnode : node ≠ .dir) :
    localTree entry t = if entry.delete then
      if Str.endsWith entry.dst "/" || unnamed entry.dst then t else entry.src.tree
      else if unnamed entry.dst || (Str.endsWith entry.dst "/" && !entry.src.isDir) then t
      else Tree.cpOver t entry.src.tree := by
  unfold localTree
  cases node with
  | dir => exact absurd rfl hnode
  | file content => cases entry.delete <;> simp [h]
  | link target => cases entry.delete <;> simp [h]

theorem cpInto_root (h : t [] = some .dir) (hsrc : entry.src.isDir = true) :
    cpInto entry.src t [] = some .dir := by
  unfold cpInto
  split
  · simp [Tree.cpOver, Tree.overlay, Tree.clash, Tree.isLeaf, dir_root entry.src hsrc, h]
  · exact h

theorem cpInto_cpInto (src : Source) (t : Tree) : cpInto src (cpInto src t) = cpInto src t := by
  unfold cpInto
  split
  · exact Tree.cpOver_cpOver t src.tree
  · rw [Tree.child_putChild, Tree.putChild_putChild, Tree.cpOver_cpOver]

open Classical in
/-- A directory that is copied without its name is written the same way by both, unless files and
directories meet. -/
theorem cpInto_nameless {src : Source} (hname : src.nameless = true)
    (hfree : ∀ q, Tree.clash t src.tree q = false) :
    cpInto src t = rsyncOver false t src.tree := by
  have hkept : ∀ q, ¬ (src.tree.isLeaf q = true ∧ t q = some .dir ∧ false = false ∧
      ∃ name, t (q ++ [name]) ≠ none) := by
    rintro q ⟨hleaf, hdir, -⟩
    have hclash := hfree q
    simp [Tree.clash, hleaf, hdir] at hclash
  funext q
  have hcp : ¬ q.inits.any (Tree.clash t src.tree) = true := by simp [hfree]
  have hrsync : ¬ (q.inits.any fun q => decide (src.tree.isLeaf q = true ∧ t q = some .dir ∧
      false = false ∧ ∃ name, t (q ++ [name]) ≠ none)) = true := by
    rw [List.any_eq_true]
    rintro ⟨p, -, hp⟩
    exact hkept p (of_decide_eq_true hp)
  rw [cpInto, if_pos hname, Tree.cpOver, rsyncOver, Tree.overlay, Tree.overlay, if_neg hcp,
    if_neg hrsync]

theorem asDir_of_dir (h : t [] = some .dir) : t.asDir = t := by
  funext q
  by_cases hq : q = []
  · rw [Tree.asDir, if_pos hq, hq, h]
  · rw [Tree.asDir, if_neg hq]

theorem dir_means_iff (hsrc : entry.src.isDir = true) (ht : t.Closed) :
    (localTree entry (localTree entry t) = localTree entry t ∧
      localTree entry t = if t.isLeaf [] = true then t else if entry.delete then entry.src.tree
        else rsyncOver false t.asDir entry.src.tree) ↔ DirMeans entry t := by
  have hdir := dir_root entry.src hsrc
  cases hroot : t [] with
  | none =>
    have hleaf : t.isLeaf [] = false := by simp [Tree.isLeaf, hroot]
    have hne : t [] ≠ some .dir := by simp [hroot]
    have hbelow : ∀ q, q ≠ [] → t q = none := below_of_not_dir ht hne
    have hcp := cpOver_fresh entry.src ht hne fun _ => hroot
    have hremote : rsyncOver false t.asDir entry.src.tree = entry.src.tree := by
      refine rsyncOver_fresh entry.src false fun q hq => ?_
      rw [Tree.asDir, if_neg hq, hbelow q hq]
    have hdiff : t ≠ entry.src.tree := by
      intro heq
      rw [heq, hdir] at hroot
      cases hroot
    simp only [DirMeans, hroot, hleaf, localTree_none hroot, hsrc, hcp, hremote, Bool.false_eq_true,
      if_false, Bool.not_true, Bool.and_false, Bool.or_false, ite_self]
    cases hdots : unnamed entry.dst with
    | true => simp [hdiff]
    | false =>
      cases hdelete : entry.delete <;> simp [localTree_dir hdir, hdelete, hdots, hsrc]
  | some node =>
    by_cases hnode : node = .dir
    · subst hnode
      have hleaf : t.isLeaf [] = false := by simp [Tree.isLeaf, hroot]
      simp only [DirMeans, hroot, hleaf, localTree_dir hroot, asDir_of_dir hroot, Bool.false_eq_true,
        if_false]
      cases hdelete : entry.delete with
      | true =>
        cases hdots : unnamed entry.dst with
        | true =>
          have honly : Tree.onlyDir [] = some .dir := rfl
          simp [localTree_dir honly, hdelete, hdots, eq_comm]
        | false => simp [localTree_dir hdir, hdelete, hdots, hsrc]
      | false =>
        simp [localTree_dir (cpInto_root hroot hsrc), hdelete, cpInto_cpInto]
    · have hleaf : t.isLeaf [] = true := Tree.isLeaf_iff.mpr ⟨node, hroot, hnode⟩
      have hcp := cpOver_refused entry.src (.inl ⟨hsrc, hleaf⟩)
      have hdiff : entry.src.tree ≠ t := by
        intro heq
        rw [heq, hroot] at hdir
        exact hnode (Option.some.inj hdir)
      have hmeans : DirMeans entry t ↔
          (entry.delete = true → (Str.endsWith entry.dst "/" || unnamed entry.dst) = true) := by
        cases node with
        | dir => exact absurd rfl hnode
        | file content => simp [DirMeans, hroot]
        | link target => simp [DirMeans, hroot]
      rw [hmeans, localTree_leaf hroot hnode, hleaf]
      cases hdelete : entry.delete with
      | true =>
        cases hstays : Str.endsWith entry.dst "/" || unnamed entry.dst with
        | true => simp [localTree_leaf hroot hnode, hdelete, hstays]
        | false => simp [hdiff]
      | false => simp [hcp, localTree_leaf hroot hnode, hdelete]

end Dir

/-- The same for a file, which the transfer may make a directory for at the destination itself. -/
def FileMeans (entry : Entry) (makesIt : Prop) (found : Tree) : Prop :=
  match found [] with
  | none => unnamed entry.dst = false ∧ ¬ makesIt
  | some .dir => entry.delete = false ∧
      ¬ (found [entry.src.name] = some .dir ∧ ∀ name, found [entry.src.name, name] = none)
  | some node =>
    ((Str.endsWith entry.dst "/" || unnamed entry.dst) = true ↔ makesIt) ∨ node = entry.src.root

/-- What the transfer of a file leaves, where no file stands on the way. -/
noncomputable def remoteFile (entry : Entry) (makesIt : Prop) [Decidable makesIt] (found : Tree) :
    Tree :=
  if makesIt then
    if found.isLeaf [] = true then found
    else Tree.putChild entry.src.name found.asDir
      (rsyncOver entry.delete (found.asDir.child entry.src.name) entry.src.tree)
  else if found [] = some .dir then
    Tree.putChild entry.src.name found
      (rsyncOver entry.delete (found.child entry.src.name) entry.src.tree)
  else rsyncOver entry.delete found entry.src.tree

section File
variable {entry : Entry} {t : Tree}

theorem root_ne_dir (hsrc : entry.src.isDir = false) : entry.src.root ≠ .dir := fun h => by
  rw [(isDir_iff entry.src).mpr h] at hsrc
  cases hsrc

theorem cpInto_file (hsrc : entry.src.isDir = false) (t : Tree) : cpInto entry.src t =
    Tree.putChild entry.src.name t (Tree.cpOver (t.child entry.src.name) entry.src.tree) := by
  obtain ⟨-, hname, hdots⟩ := entry.src.file (root_ne_dir hsrc)
  have hnameless : entry.src.nameless = false := by
    simp [Source.nameless, Source.name, hname, hdots]
  rw [cpInto, hnameless, if_neg (by simp)]

theorem closed_child (ht : t.Closed) (name : String) : (t.child name).Closed :=
  fun q x h => ht (name :: q) x h

/-- A file stays where it was copied to. -/
theorem localTree_src (hsrc : entry.src.isDir = false)
    (hstays : (Str.endsWith entry.dst "/" || unnamed entry.dst) = false) :
    localTree entry entry.src.tree = entry.src.tree := by
  rw [Bool.or_eq_false_iff] at hstays
  have hcp := cpOver_fresh entry.src entry.src.closed
    (by rw [entry.src.rooted]; exact fun h => root_ne_dir hsrc (Option.some.inj h)) (by simp [hsrc])
  rw [localTree_leaf entry.src.rooted (root_ne_dir hsrc)]
  simp [hstays.1, hstays.2, hcp]

theorem eq_src_iff (hsrc : entry.src.isDir = false) (ht : t.Closed) {node : Node}
    (hroot : t [] = some node) (hnode : node ≠ .dir) :
    t = entry.src.tree ↔ node = entry.src.root := by
  constructor
  · intro h
    rw [h, entry.src.rooted] at hroot
    exact (Option.some.inj hroot).symm
  · intro h
    funext q
    by_cases hq : q = []
    · rw [hq, hroot, entry.src.rooted, h]
    · have hne : t [] ≠ some .dir := by
        rw [hroot]
        exact fun hdir => hnode (Option.some.inj hdir)
      rw [ht.below hne hq, file_below entry.src hsrc hq]

theorem rsyncOver_delete_root (t : Tree) :
    rsyncOver true t entry.src.tree [] = some entry.src.root := by
  simp [rsyncOver, Tree.overlay, entry.src.rooted]

/-- A file in a directory: only an empty directory of its name is treated in two ways. -/
theorem file_over_iff (hsrc : entry.src.isDir = false) (ht : t.Closed) :
    Tree.cpOver t entry.src.tree = rsyncOver false t entry.src.tree ↔
      ¬ (t [] = some .dir ∧ ∀ name, t [name] = none) := by
  by_cases hdir : t [] = some .dir
  · rw [cpOver_refused entry.src (.inr ⟨hsrc, hdir⟩), eq_comm, rsyncOver_dir entry.src hsrc ht hdir]
    simp [hdir]
  · have hbelow : ∀ q, q ≠ [] → t q = none := below_of_not_dir ht hdir
    rw [cpOver_fresh entry.src ht hdir (by simp [hsrc]), rsyncOver_fresh entry.src false hbelow]
    simp [hdir]

theorem file_means_iff (hsrc : entry.src.isDir = false) (ht : t.Closed) (makesIt : Prop)
    [Decidable makesIt] (hslash : Str.endsWith entry.dst "/" = true → makesIt) :
    (localTree entry (localTree entry t) = localTree entry t ∧
      localTree entry t = remoteFile entry makesIt t) ↔ FileMeans entry makesIt t := by
  cases hroot : t [] with
  | none =>
    have hne : t [] ≠ some .dir := by simp [hroot]
    have hleaf : t.isLeaf [] = false := by simp [Tree.isLeaf, hroot]
    have hbelow : ∀ q, q ≠ [] → t q = none := below_of_not_dir ht hne
    have hlocal : localTree entry t = if (Str.endsWith entry.dst "/" || unnamed entry.dst) = true
        then t else entry.src.tree := by
      rw [localTree_none hroot, hsrc, cpOver_fresh entry.src ht hne fun _ => hroot, ite_self,
        Bool.not_false, Bool.and_true, Bool.or_comm]
    rw [FileMeans, hroot, hlocal]
    by_cases hmakes : makesIt
    · refine ⟨fun h => ?_, fun h => absurd hmakes h.2⟩
      have hdir := congrFun h.2 []
      have hremote : remoteFile entry makesIt t [] = some .dir := by
        simp [remoteFile, hmakes, hleaf, Tree.asDir]
      rw [hremote] at hdir
      split at hdir
      · cases hroot.symm.trans hdir
      · rw [entry.src.rooted] at hdir
        exact absurd (Option.some.inj hdir) (root_ne_dir hsrc)
    · have hno : Str.endsWith entry.dst "/" = false := by
        by_contra h
        exact hmakes (hslash (by simpa using h))
      have hremote : remoteFile entry makesIt t = entry.src.tree := by
        rw [remoteFile, if_neg hmakes, if_neg hne, rsyncOver_fresh entry.src _ hbelow]
      rw [hremote]
      cases hdots : unnamed entry.dst with
      | true =>
        have hdiff : t ≠ entry.src.tree := by
          intro heq
          rw [heq, entry.src.rooted] at hroot
          cases hroot
        simp [hdiff]
      | false =>
        have hsettled : localTree entry entry.src.tree = entry.src.tree :=
          localTree_src hsrc (by simp [hno, hdots])
        simp [hno, hmakes, hsettled]
  | some node =>
    by_cases hnode : node = .dir
    · subst hnode
      have hleaf : t.isLeaf [] = false := by simp [Tree.isLeaf, hroot]
      have hremote : remoteFile entry makesIt t = Tree.putChild entry.src.name t
          (rsyncOver entry.delete (t.child entry.src.name) entry.src.tree) := by
        simp [remoteFile, asDir_of_dir hroot, hleaf, hroot]
      rw [FileMeans, hroot, hremote]
      cases hdelete : entry.delete with
      | true =>
        refine ⟨fun h => ?_, fun h => absurd h.1 (by simp)⟩
        have hchild := congrFun h.2 [entry.src.name]
        rw [Tree.putChild, if_pos rfl, rsyncOver_delete_root, localTree_dir hroot, hdelete,
          if_pos rfl] at hchild
        have hbelow := file_below entry.src hsrc (q := [entry.src.name]) (by simp)
        have hnone : (none : Option Node) = some entry.src.root := by
          split at hchild
          · exact hchild
          · split at hchild
            · exact hchild
            · exact hbelow.symm.trans hchild
        cases hnone
      | false =>
        have hlocal : ∀ u : Tree, u [] = some .dir → localTree entry u = cpInto entry.src u := by
          intro u hu
          rw [localTree_dir hu, hdelete, if_neg (by simp)]
        have hinto : cpInto entry.src t [] = some .dir := by rw [cpInto_file hsrc]; exact hroot
        rw [hlocal t hroot, hlocal _ hinto, cpInto_cpInto, cpInto_file hsrc]
        have hover := file_over_iff hsrc (closed_child ht entry.src.name)
        constructor
        · intro h
          exact ⟨rfl, hover.mp (Tree.putChild_inj h.2)⟩
        · intro h
          exact ⟨rfl, by rw [hover.mpr h.2]⟩
    · have hne : t [] ≠ some .dir := by
        rw [hroot]
        exact fun h => hnode (Option.some.inj h)
      have hleaf : t.isLeaf [] = true := Tree.isLeaf_iff.mpr ⟨node, hroot, hnode⟩
      have hmeans : FileMeans entry makesIt t ↔
          ((Str.endsWith entry.dst "/" || unnamed entry.dst) = true ↔ makesIt) ∨
            node = entry.src.root := by
        cases node with
        | dir => exact absurd rfl hnode
        | file content => simp [FileMeans, hroot]
        | link target => simp [FileMeans, hroot]
      have hcp := cpOver_fresh entry.src ht hne (by simp [hsrc])
      have hlocal : localTree entry t = if (Str.endsWith entry.dst "/" || unnamed entry.dst) = true
          then t else entry.src.tree := by
        rw [localTree_leaf hroot hnode, hsrc, hcp, Bool.not_false, Bool.and_true,
          Bool.or_comm (unnamed entry.dst), ite_self]
      have hremote : remoteFile entry makesIt t = if makesIt then t else entry.src.tree := by
        rw [remoteFile, hleaf, if_pos rfl, if_neg hne,
          rsyncOver_fresh entry.src _ (below_of_not_dir ht hne)]
      rw [hmeans, ← eq_src_iff hsrc ht hroot hnode, hremote]
      cases hstays : Str.endsWith entry.dst "/" || unnamed entry.dst with
      | true =>
        rw [hstays] at hlocal
        rw [hlocal, if_pos rfl, hlocal, if_pos rfl]
        by_cases hmakes : makesIt <;> simp [hmakes]
      | false =>
        rw [hstays] at hlocal
        rw [hlocal, if_neg (by simp), localTree_src hsrc hstays]
        by_cases hmakes : makesIt <;> simp [hmakes, eq_comm]

end File

/-- Where running the local copy again changes nothing, and its tree is the one of the transfer. -/
def Means (here : Here) (entry : Entry) : Prop :=
  here.remote.expansion entry.dst = none ∧ (wayBlocked here entry = true ∨
    if entry.src.isDir then DirMeans entry (here.found entry)
    else FileMeans entry (made here entry = locate here.base entry.dst) (here.found entry))

section Whole
variable (here : Here) (entry : Entry)

theorem treeAt_runLocal : (runLocal here entry here.disk).treeAt (locate here.base entry.dst) =
    if wayBlocked here entry = true then here.found entry
    else localTree entry (here.found entry) := by
  rw [runLocal_here]
  split
  · rfl
  · rw [Store.treeAt_replace]

/-- A home directory in front of the destination is another place. -/
theorem plain_of_sameTree (h : SameTree here entry) : here.remote.expansion entry.dst = none := by
  cases hexp : here.remote.expansion entry.dst with
  | none => rfl
  | some there =>
    obtain ⟨name, home, rest, -, hname, hremote, -, hlocate⟩ :=
      Placement.expansion_some here.remote hexp
    have hsame := h.1
    rw [hremote] at hsame
    exact absurd (hsame.trans hlocate) (Placement.there_ne here.remote hname rest).1

theorem remote_file (hplain : here.remote.expansion entry.dst = none)
    (hsrc : entry.src.isDir = false) :
    (runRemote here entry).treeAt (locate here.base entry.dst) =
      if wayBlocked here entry = true then here.found entry
      else remoteFile entry (made here entry = locate here.base entry.dst) (here.found entry) := by
  cases made_cases here entry with
  | inl hmade =>
    rw [remote_file_made here entry hplain hsrc hmade, remoteFile, if_pos hmade]
    by_cases hway : wayBlocked here entry = true <;> simp [hway]
  | inr hin =>
    obtain ⟨hslash, name, hmade⟩ := hin
    have hne : made here entry ≠ locate here.base entry.dst := by
      rw [hmade]
      intro heq
      have hlen := congrArg List.length heq
      simp at hlen
    rw [remote_file_in here entry hplain hsrc hmade hslash, remoteFile, if_neg hne]

theorem made_of_slash (h : Str.endsWith entry.dst "/" = true) :
    made here entry = locate here.base entry.dst := by
  refine (made_cases here entry).resolve_right fun hin => ?_
  cases hin.1.symm.trans h

end Whole

/-- A directory with one file. -/
def appDir : Source where
  text := "out/app"
  tree q := if q = [] then some .dir else if q = ["main"] then some (.file [1]) else none
  root := .dir
  rooted := rfl
  closed q name h := by
    cases q with
    | nil => rfl
    | cons x q => cases q <;> simp at h
  file h := absurd rfl h

def emptySrv : Here where
  base := []
  disk q := if q = [] ∨ q = ["srv"] then some .dir else none
  tilde _ := none
  closed q name h := by
    cases q with
    | nil => rfl
    | cons x q => cases q <;> simp at h
  entered q hq := by
    rw [List.prefix_nil.mp hq]
    rfl
  tilde_apart _ _ h := absurd h nofun

def appToSrv : Entry := ⟨appDir, "/srv/app", false, by decide⟩

end Shellflow.CopyTrees
