import Mathlib
import Shellflow.Host.Credstore
import Shellflow.Lib.Links

/-! The removal of an old snapshot: every file is overwritten with zeros, then the tree goes. -/
namespace Shellflow.Shred
open Links

/-- The file system before the call; the names in a directory come in order. -/
structure Disk where
  nodes : Nodes
  listing : Loc → List String
  depth : Nat
  root : nodes [] = some .dir
  shallow : ∀ loc, nodes loc ≠ none → loc.length ≤ depth
  treed : Treed nodes
  listed : ∀ r name, nodes (r ++ [name]) ≠ none → name ∈ listing r

/-- What stands at each location, and what a file held when it was removed. -/
structure ShredState where
  nodes : Nodes
  freed : Loc → Option (List UInt8)

/-- The operations that fail, by the path they are given. A `remove_dir_all` that fails leaves what
is on the way to some locations, and a write that fails has written some bytes. -/
structure ShredFaults where
  list : List String → Option String
  entry : List String → Bool
  create : List String → Bool
  write : List String → Option Nat
  remove : List String → Bool
  removeAll : List String → Option (List Loc)

def maxFollow : Nat := 40

/-- `fs::metadata`: where the path leads. -/
def stat (nodes : Nodes) (path : List String) : Option Loc := follow nodes maxFollow [] path

/-- The location that the path names itself: its last component is not followed. -/
def lstat (nodes : Nodes) (path : List String) : Option Loc :=
  match path.getLast? with
  | none => some []
  | some name => (stat nodes path.dropLast).map fun r => r ++ [name]

def zeros (n : Nat) : List UInt8 := List.replicate n 0

def Disk.start (d : Disk) : ShredState := ⟨d.nodes, fun _ => none⟩

/-- The file system but for a tree. -/
def Disk.without (d : Disk) (loc : Loc) : Nodes := fun q => if loc <+: q then none else d.nodes q

namespace ShredState

def setNode (s : ShredState) (loc : Loc) (node : Option Node) : ShredState :=
  { s with nodes := Function.update s.nodes loc node }

def unlink (s : ShredState) (loc : Loc) : ShredState where
  nodes := Function.update s.nodes loc none
  freed :=
    match s.nodes loc with
    | some (.file bytes) => Function.update s.freed loc (some bytes)
    | _ => s.freed

/-- A tree goes, but for what is on the way to `remains`. -/
def removeTree (s : ShredState) (loc : Loc) (remains : List Loc) : ShredState where
  nodes q := if loc <+: q ∧ ¬ ∃ x ∈ remains, q <+: x then none else s.nodes q
  freed q :=
    if loc <+: q ∧ ¬ ∃ x ∈ remains, q <+: x then
      match s.nodes q with
      | some (.file bytes) => some bytes
      | _ => s.freed q
    else s.freed q

end ShredState

section Root
variable (d : Disk) (f : ShredFaults)

def displayPath (path : List String) : String := "/" ++ Str.join "/" path

/-- The paths of the entries; one that cannot be read is left out. -/
def entriesOf (s : ShredState) (path : List String) (r : Loc) : List (List String) :=
  (((d.listing r).filter fun name => (s.nodes (r ++ [name])).isSome).map
    fun name => path ++ [name]).filter fun entry => !f.entry entry

/-- The file is truncated and zeros are written, up to its length. -/
def overwrite (s : ShredState) (path : List String) (q : Loc) (bytes : List UInt8) : ShredState :=
  if f.create path then s
  else
    match f.write path with
    | none => s.setNode q (some (.file (zeros bytes.length)))
    | some written => s.setNode q (some (.file (zeros (min written bytes.length))))

def removeFile (s : ShredState) (path : List String) : ShredState :=
  if f.remove path then s
  else
    match lstat s.nodes path with
    | none => s
    | some loc =>
      match s.nodes loc with
      | some (.file _) | some (.link _) => s.unlink loc
      | _ => s

/-- A symbolic link goes itself, not what it leads to. -/
def removeDirAll (s : ShredState) (path : List String) : ShredState :=
  match lstat s.nodes path with
  | none => s
  | some loc =>
    match s.nodes loc with
    | some (.link _) => if (f.removeAll path).isSome then s else s.unlink loc
    | some .dir => s.removeTree loc ((f.removeAll path).getD [])
    | _ => s

abbrev Outcome := Option (ShredState × Except HostError Unit)

def each (call : List String → ShredState → Outcome) : List (List String) → ShredState → Outcome
  | [], s => some (s, .ok ())
  | path :: rest, s =>
    match call path s with
    | some (s, .ok ()) => each call rest s
    | stopped => stopped

/-- The branch that runs as root; `none` is a recursion that has not come to its end. -/
def shredAndRemove : Nat → List String → ShredState → Outcome
  | 0, _, _ => none
  | fuel + 1, path, s =>
    match stat s.nodes path with
    | none => some (s, .ok ())
    | some q =>
      match s.nodes q with
      | some .dir =>
        match f.list path with
        | some err => some (s, .error (.internal s!"cannot list `{displayPath path}`: {err}"))
        | none =>
          match each (shredAndRemove fuel) (entriesOf d f s path q) s with
          | some (s, .ok ()) => some (removeDirAll f s path, .ok ())
          | stopped => stopped
      | some (.file bytes) =>
        let s := if bytes = [] then s else overwrite f s path q bytes
        some (removeFile f s path, .ok ())
      | _ => some (s, .ok ())

end Root

/-- How `find` or `rm` fails under `sudo`, and what it leaves. -/
structure ToolFault where
  stderr : String
  debris : ShredState → ShredState

/-- `find -type f -exec shred -u`: it follows no link; `noise` is what it overwrites with. -/
def findShred (noise : Nat → List UInt8) (s : ShredState) (path : Loc) : ShredState where
  nodes q :=
    match s.nodes q with
    | some (.file bytes) => if path <+: q then none else some (.file bytes)
    | node => node
  freed q :=
    match s.nodes q with
    | some (.file bytes) => if path <+: q then some (noise bytes.length) else s.freed q
    | _ => s.freed q

/-- The branch that elevates. -/
def sudoShredAndRemove (noise : Nat → List UInt8) (find rm : Option ToolFault)
    (path : List String) (s : ShredState) : ShredState × Except HostError Unit :=
  let failed (stderr : String) : Except HostError Unit :=
    .error (.failed s!"cannot remove `{displayPath path}`: {stderr}")
  match find, lstat s.nodes path with
  | some fault, _ => (fault.debris s, failed fault.stderr)
  | none, none => (s, failed "No such file or directory")
  | none, some loc =>
    if s.nodes loc = none then (s, failed "No such file or directory")
    else
      let s := findShred noise s loc
      match rm, lstat s.nodes path with
      | some fault, _ => (fault.debris s, failed fault.stderr)
      | none, none => (s, .ok ())
      | none, some loc => (s.removeTree loc [], .ok ())

/-- The tree is gone, each of its files held other bytes when it went, and nothing else changed. -/
structure Shredded (d : Disk) (loc : Loc) (blank : Nat → List UInt8) (s : ShredState) : Prop where
  gone : ∀ q, loc <+: q → s.nodes q = none
  erased : ∀ q bytes, loc <+: q → d.nodes q = some (.file bytes) →
    s.freed q = some (blank bytes.length)
  outside : ∀ q, ¬ loc <+: q → s.nodes q = d.nodes q

/-- The operation that the branch ends with is one that removes the path. -/
def Removed (f : ShredFaults) (path : List String) (s : ShredState) : Prop :=
  ∀ q, stat s.nodes path = some q →
    if s.nodes q = some .dir then f.removeAll path = none else f.remove path = false

/-- The path names the root of the tree by a way that does not lead through it, and is no dangling
link; no symbolic link of the tree leads to something outside that would be changed; and none of
the failures happens that the code does not look at. -/
structure Harmless (d : Disk) (f : ShredFaults) (path : List String) (loc : Loc) : Prop where
  named : path ≠ []
  way : lstat (d.without loc) path = some loc
  top : ∀ target, d.nodes loc = some (.link target) → (stat d.nodes path).isSome
  links : ∀ q target r, loc <+: q → d.nodes q = some (.link target) →
    follow d.nodes (maxFollow - 1) [] target = some r →
    loc <+: r ∨ d.nodes r = some (.file []) ∨
      (d.nodes r = some .dir ∧ ∀ name, d.nodes (r ++ [name]) = none)
  entries : ∀ entry q, path <+: entry → lstat d.nodes entry = some q → d.nodes q ≠ none →
    f.entry entry = false
  writes : ∀ entry q bytes, path <+: entry → stat d.nodes entry = some q →
    d.nodes q = some (.file bytes) → bytes ≠ [] → f.create entry = false ∧ f.write entry = none
  removal : Removed f path d.start

section Effects
variable {p loc q : Loc} {s s' mid : ShredState}

/-- What the branch may do: within the tree, files turn to zeros and blank files, links and
directories go. -/
structure Calm (p : Loc) (s s' : ShredState) : Prop where
  below : Below s'.nodes s.nodes
  outside : ∀ q, ¬ p <+: q → s'.nodes q = s.nodes q
  erased : ∀ q bytes, s.nodes q = some (.file bytes) →
    s'.nodes q = some (.file bytes) ∨ s'.nodes q = some (.file (zeros bytes.length)) ∨
      (s'.nodes q = none ∧ s'.freed q = some (zeros bytes.length))
  kept : ∀ q, s.nodes q = none → s'.freed q = s.freed q
  treed : Treed s.nodes → Treed s'.nodes

/-- Every file at the location or below it is blank. -/
def Wiped (s : ShredState) (loc : Loc) : Prop :=
  ∀ q bytes, loc <+: q → s.nodes q = some (.file bytes) → bytes = zeros bytes.length

theorem length_zeros (n : Nat) : (zeros n).length = n := List.length_replicate

theorem below_none {nodes nodes' : Nodes} (h : Below nodes nodes') (hnone : nodes' q = none) :
    nodes q = none := by
  cases hq : nodes q with
  | none => rfl
  | some node =>
    obtain ⟨node', hnode', -⟩ := h q node hq
    rw [hnone] at hnode'
    cases hnode'

theorem Calm.refl (p : Loc) (s : ShredState) : Calm p s s where
  below := .refl _
  outside _ _ := rfl
  erased _ _ h := .inl h
  kept _ _ := rfl
  treed h := h

theorem Calm.trans (h : Calm p s mid) (h' : Calm p mid s') : Calm p s s' where
  below := h'.below.trans h.below
  outside q hq := (h'.outside q hq).trans (h.outside q hq)
  erased q bytes hq := by
    rcases h.erased q bytes hq with hsame | hzero | ⟨hnone, hfreed⟩
    · exact h'.erased q bytes hsame
    · have hlater := h'.erased q _ hzero
      rw [length_zeros, or_self_left] at hlater
      exact .inr hlater
    · exact .inr (.inr ⟨below_none h'.below hnone, (h'.kept q hnone).trans hfreed⟩)
  kept q hq := (h'.kept q (below_none h.below hq)).trans (h.kept q hq)
  treed htree := h'.treed (h.treed htree)

/-- Blank files stay blank. -/
theorem Wiped.calm (hwiped : Wiped s loc) (h : Calm p s s') : Wiped s' loc := by
  intro q bytes hq hfile
  obtain ⟨node, hnode, halike⟩ := h.below q _ hfile
  obtain ⟨old, rfl⟩ := alike_file halike
  have hold := hwiped q old hq hnode
  rcases h.erased q old hnode with hsame | hzero | ⟨hnone, -⟩
  · rw [hfile] at hsame
    cases hsame
    exact hold
  · rw [hfile] at hzero
    cases hzero
    rw [length_zeros]
  · rw [hfile] at hnone
    cases hnone

/-- Below a link or a free name there is nothing. -/
theorem wiped_of_leaf (htree : Treed s.nodes)
    (hleaf : s.nodes loc = none ∨ ∃ target, s.nodes loc = some (.link target)) : Wiped s loc := by
  rintro q bytes ⟨rest, rfl⟩ hfile
  by_cases hrest : rest = []
  · rw [hrest, List.append_nil] at hfile
    rcases hleaf with hnone | ⟨target, hlink⟩
    · rw [hnone] at hfile
      cases hfile
    · rw [hlink] at hfile
      cases hfile
  · have hdir := dir_of_below htree hrest (by rw [hfile]; nofun)
    rcases hleaf with hnone | ⟨target, hlink⟩
    · rw [hnone] at hdir
      cases hdir
    · rw [hlink] at hdir
      cases hdir

/-- What happens at one location. -/
inductive Change (p : Loc) (s s' : ShredState) (q : Loc) : Prop
  | same (hnodes : s'.nodes q = s.nodes q) (hfreed : s'.freed q = s.freed q)
  | zeroed (bytes : List UInt8) (hq : p <+: q) (hold : s.nodes q = some (.file bytes))
      (hnew : s'.nodes q = some (.file (zeros bytes.length)))
  | gone (hq : p <+: q) (hnew : s'.nodes q = none)
      (hfile : ∀ bytes, s.nodes q = some (.file bytes) →
        bytes = zeros bytes.length ∧ s'.freed q = some bytes)
      (hnone : s.nodes q = none → s'.freed q = s.freed q)

theorem calm_of_changes (h : ∀ q, Change p s s' q) (htree : Treed s.nodes → Treed s'.nodes) :
    Calm p s s' where
  below q node hnode := by
    cases h q with
    | same hnodes => exact ⟨node, hnodes ▸ hnode, .refl node⟩
    | zeroed bytes _ hold hnew =>
      rw [hnew] at hnode
      cases hnode
      exact ⟨_, hold, trivial⟩
    | gone _ hnew =>
      rw [hnew] at hnode
      cases hnode
  outside q hq := by
    cases h q with
    | same hnodes => exact hnodes
    | zeroed _ hin => exact absurd hin hq
    | gone hin => exact absurd hin hq
  erased q bytes hfile := by
    cases h q with
    | same hnodes => exact .inl (hnodes.trans hfile)
    | zeroed old _ hold hnew =>
      rw [hold] at hfile
      cases hfile
      exact .inr (.inl hnew)
    | gone _ hnew hblank =>
      obtain ⟨hzero, hfreed⟩ := hblank bytes hfile
      exact .inr (.inr ⟨hnew, by rw [hfreed, ← hzero]⟩)
  kept q hnone := by
    cases h q with
    | same _ hfreed => exact hfreed
    | zeroed _ _ hold =>
      rw [hold] at hnone
      cases hnone
    | gone _ _ _ hkept => exact hkept hnone
  treed := htree

theorem calm_setZeros {bytes : List UInt8} (hq : p <+: q) (hfile : s.nodes q = some (.file bytes)) :
    Calm p s (s.setNode q (some (.file (zeros bytes.length)))) := by
  refine calm_of_changes (fun r => ?_) fun htree r name h => ?_
  · by_cases hr : r = q
    · subst hr
      exact .zeroed bytes hq hfile (Function.update_self ..)
    · exact .same (Function.update_of_ne hr ..) rfl
  · have hold : s.nodes (r ++ [name]) ≠ none := by
      by_cases hr : r ++ [name] = q
      · rw [hr, hfile]
        nofun
      · exact fun hnone => h ((Function.update_of_ne hr ..).trans hnone)
    have hdir := htree r name hold
    have hne : r ≠ q := by
      intro heq
      rw [heq, hfile] at hdir
      cases hdir
    exact (Function.update_of_ne hne ..).trans hdir

/-- A link or a blank file goes. -/
theorem calm_unlink (hloc : p <+: loc) (hdir : s.nodes loc ≠ some .dir) (hwiped : Wiped s loc) :
    Calm p s (s.unlink loc) := by
  refine calm_of_changes (fun r => ?_) fun htree r name h => ?_
  · by_cases hr : r = loc
    · subst hr
      refine .gone hloc (Function.update_self ..) (fun bytes hfile => ?_) fun hnone => ?_
      · refine ⟨hwiped r bytes (List.prefix_refl r) hfile, ?_⟩
        rw [ShredState.unlink, hfile]
        exact Function.update_self ..
      · rw [ShredState.unlink, hnone]
    · refine .same (Function.update_of_ne hr ..) ?_
      rw [ShredState.unlink]
      cases s.nodes loc with
      | none => rfl
      | some node =>
        cases node with
        | file bytes => exact Function.update_of_ne hr ..
        | link | dir => rfl
  · have hold : s.nodes (r ++ [name]) ≠ none := by
      intro hnone
      refine h ?_
      rw [ShredState.unlink]
      dsimp only
      by_cases hr : r ++ [name] = loc
      · rw [hr, Function.update_self]
      · rw [Function.update_of_ne hr, hnone]
    have hparent := htree r name hold
    have hne : r ≠ loc := fun heq => hdir (heq ▸ hparent)
    exact (Function.update_of_ne hne ..).trans hparent

/-- A tree whose files are blank goes, or a part of it. -/
theorem calm_removeTree (hloc : p <+: loc) (hwiped : Wiped s loc) (remains : List Loc) :
    Calm p s (s.removeTree loc remains) := by
  refine calm_of_changes (fun r => ?_) fun htree r name h => ?_
  · by_cases hr : loc <+: r ∧ ¬ ∃ x ∈ remains, r <+: x
    · refine .gone (hloc.trans hr.1) (if_pos hr) (fun bytes hfile => ?_) fun hnone => ?_
      · refine ⟨hwiped r bytes hr.1 hfile, ?_⟩
        rw [ShredState.removeTree]
        dsimp only
        rw [if_pos hr, hfile]
      · rw [ShredState.removeTree]
        dsimp only
        rw [if_pos hr, hnone]
    · exact .same (if_neg hr) (if_neg hr)
  · have hstays : ¬ (loc <+: r ++ [name] ∧ ¬ ∃ x ∈ remains, r ++ [name] <+: x) :=
      fun hgone => h (if_pos hgone)
    have hold : s.nodes (r ++ [name]) ≠ none := fun hnone => h ((if_neg hstays).trans hnone)
    have hparent : ¬ (loc <+: r ∧ ¬ ∃ x ∈ remains, r <+: x) := by
      rintro ⟨hr, hnone⟩
      refine hstays ⟨hr.trans (List.prefix_append r [name]), ?_⟩
      rintro ⟨x, hx, hbelow⟩
      exact hnone ⟨x, hx, (List.prefix_append r [name]).trans hbelow⟩
    exact (if_neg hparent).trans (htree r name hold)

end Effects

section Calls
variable {d : Disk} {f : ShredFaults} {top : List String} {p : Loc} {s s' : ShredState}
  {parent path : List String} {name : String} {q loc : Loc}

theorem lstat_concat (nodes : Nodes) (parent : List String) (name : String) :
    lstat nodes (parent ++ [name]) = (stat nodes parent).map fun r => r ++ [name] := by
  rw [lstat, List.getLast?_concat, List.dropLast_concat]

/-- Where a path leads, and where it names something itself, does not change. -/
theorem stat_mono (hbelow : Below s'.nodes s.nodes) (h : stat s'.nodes path = some q) :
    stat s.nodes path = some q := follow_mono hbelow (Nat.le_refl _) h

theorem lstat_mono (hbelow : Below s'.nodes s.nodes)
    (h : lstat s'.nodes (parent ++ [name]) = some loc) :
    lstat s.nodes (parent ++ [name]) = some loc := by
  rw [lstat_concat] at h ⊢
  obtain ⟨r, hr, rfl⟩ := Option.map_eq_some_iff.mp h
  rw [stat_mono hbelow hr]
  rfl

/-- What a path names, if it is no link, is where it leads. -/
theorem stat_of_lstat (htree : Treed s.nodes) (h : lstat s.nodes (parent ++ [name]) = some loc)
    {node : Node} (hnode : s.nodes loc = some node) (hlink : ∀ target, node ≠ .link target) :
    stat s.nodes (parent ++ [name]) = some loc := by
  rw [lstat_concat] at h
  obtain ⟨r, hr, rfl⟩ := Option.map_eq_some_iff.mp h
  exact follow_into htree hr hnode hlink

/-- A path in the tree leads into the tree, or to something outside that is empty. -/
theorem stat_within (hf : Harmless d f top p) (hs : Calm p d.start s)
    (hin : ∀ loc, lstat s.nodes (parent ++ [name]) = some loc → p <+: loc)
    (h : stat s.nodes (parent ++ [name]) = some q) :
    p <+: q ∨ s.nodes q = some (.file []) ∨
      (s.nodes q = some .dir ∧ ∀ entry, s.nodes (q ++ [entry]) = none) := by
  by_cases hq : p <+: q
  · exact .inl hq
  · obtain ⟨r, hr, hlast⟩ := follow_concat h
    have hloc : lstat s.nodes (parent ++ [name]) = some (r ++ [name]) := by
      rw [lstat_concat, stat, hr]
      rfl
    have hr' := hin _ hloc
    rcases hlast with ⟨rfl, -⟩ | ⟨target, budget, hlt, hlink, hfollow⟩
    · exact absurd hr' hq
    · obtain ⟨node, hnode, halike⟩ := hs.below _ _ hlink
      have hfollow' := follow_mono hs.below (Nat.le_sub_one_of_lt hlt) hfollow
      rw [alike_link halike] at hnode
      rcases hf.links _ target q hr' hnode hfollow' with hin' | hfile | ⟨hdir, hnone⟩
      · exact absurd hin' hq
      · exact .inr (.inl ((hs.outside q hq).trans hfile))
      · exact .inr (.inr ⟨(hs.outside q hq).trans hdir,
          fun entry => below_none hs.below (hnone entry)⟩)

theorem calm_removeFile
    (hin : ∀ loc, lstat s.nodes (parent ++ [name]) = some loc → p <+: loc ∧
      (s.nodes loc ≠ some .dir → Wiped s loc)) :
    Calm p s (removeFile f s (parent ++ [name])) := by
  rw [removeFile]
  split
  · exact .refl p s
  · cases hloc : lstat s.nodes (parent ++ [name]) with
    | none => exact .refl p s
    | some loc =>
      obtain ⟨hp, hwiped⟩ := hin loc hloc
      dsimp only
      split
      next bytes hnode => exact calm_unlink hp (by rw [hnode]; nofun) (hwiped (by rw [hnode]; nofun))
      next target hnode => exact calm_unlink hp (by rw [hnode]; nofun) (hwiped (by rw [hnode]; nofun))
      next => exact .refl p s

theorem calm_removeDirAll
    (hin : ∀ loc, lstat s.nodes (parent ++ [name]) = some loc → p <+: loc ∧ Wiped s loc) :
    Calm p s (removeDirAll f s (parent ++ [name])) := by
  rw [removeDirAll]
  cases hloc : lstat s.nodes (parent ++ [name]) with
  | none => exact .refl p s
  | some loc =>
    obtain ⟨hp, hwiped⟩ := hin loc hloc
    dsimp only
    split
    next target hnode =>
      split
      · exact .refl p s
      · exact calm_unlink hp (by rw [hnode]; nofun) hwiped
    next => exact calm_removeTree hp hwiped _
    next => exact .refl p s

/-- What a call on a path does: it stays within the tree, what the path names is blank afterwards,
and it is gone unless it could not be removed or is a link that leads nowhere. -/
structure Wipes (f : ShredFaults) (p : Loc) (path : List String) (s : ShredState)
    (out : ShredState × Except HostError Unit) : Prop where
  calm : Calm p s out.1
  wiped : out.2 = .ok () → ∀ loc, lstat out.1.nodes path = some loc → Wiped out.1 loc
  gone : out.2 = .ok () → Removed f path s →
    ∀ loc, lstat out.1.nodes path = some loc → out.1.nodes loc = none ∨
      (stat s.nodes path = none ∧ ∃ target, out.1.nodes loc = some (.link target))

theorem gone_removeFile (hremove : f.remove (parent ++ [name]) = false)
    (hloc : lstat s.nodes (parent ++ [name]) = some loc) (hdir : s.nodes loc ≠ some .dir) :
    (removeFile f s (parent ++ [name])).nodes loc = none := by
  rw [removeFile, hremove, if_neg Bool.false_ne_true, hloc]
  cases hnode : s.nodes loc with
  | none =>
    dsimp only
    rw [hnode]
    exact hnode
  | some node =>
    dsimp only
    rw [hnode]
    cases node with
    | dir => exact absurd hnode hdir
    | file | link => exact Function.update_self ..

theorem gone_removeDirAll (hremove : f.removeAll (parent ++ [name]) = none)
    (hloc : lstat s.nodes (parent ++ [name]) = some loc)
    (hfile : ∀ bytes, s.nodes loc ≠ some (.file bytes)) :
    (removeDirAll f s (parent ++ [name])).nodes loc = none := by
  rw [removeDirAll, hloc]
  cases hnode : s.nodes loc with
  | none =>
    dsimp only
    rw [hnode]
    exact hnode
  | some node =>
    dsimp only
    rw [hnode]
    cases node with
    | file bytes => exact absurd hnode (hfile bytes)
    | link target =>
      dsimp only
      rw [hremove]
      exact Function.update_self ..
    | dir =>
      dsimp only
      rw [hremove]
      exact if_pos ⟨List.prefix_refl loc, by simp⟩

theorem each_wipes {call : List String → ShredState → Outcome} {names : List String}
    {out : ShredState × Except HostError Unit}
    (hcall : ∀ name ∈ names, ∀ s out, Calm p d.start s →
      (∀ loc, lstat s.nodes (path ++ [name]) = some loc → p <+: loc) →
      call (path ++ [name]) s = some out → Wipes f p (path ++ [name]) s out)
    (hq : stat d.nodes path = some q) (hin : names ≠ [] → p <+: q) (hs : Calm p d.start s)
    (h : each call (names.map fun name => path ++ [name]) s = some out) :
    Calm p s out.1 ∧ (out.2 = .ok () → stat out.1.nodes path = some q →
      ∀ name ∈ names, Wiped out.1 (q ++ [name])) := by
  induction names generalizing s with
  | nil =>
    cases h
    exact ⟨.refl p s, fun _ _ name hname => absurd hname List.not_mem_nil⟩
  | cons name names ih =>
    have hp := hin (List.cons_ne_nil name names)
    have hfirst : ∀ s, Calm p d.start s → ∀ loc, lstat s.nodes (path ++ [name]) = some loc →
        p <+: loc := by
      intro s hs loc hloc
      rw [lstat_concat] at hloc
      obtain ⟨r, hr, rfl⟩ := Option.map_eq_some_iff.mp hloc
      have heq := hq.symm.trans (stat_mono hs.below hr)
      rw [← Option.some.inj heq]
      exact hp.trans (List.prefix_append q [name])
    rw [List.map_cons, each] at h
    cases hout : call (path ++ [name]) s with
    | none =>
      rw [hout] at h
      cases h
    | some mid =>
      obtain ⟨mid, result⟩ := mid
      obtain ⟨hcalm, hwiped, -⟩ := hcall name List.mem_cons_self s _ hs (hfirst s hs) hout
      rw [hout] at h
      cases result with
      | error err =>
        cases h
        exact ⟨hcalm, nofun⟩
      | ok =>
        obtain ⟨hrest, hnames⟩ := ih (fun other hother => hcall other (List.mem_cons_of_mem _ hother))
          (fun _ => hp) (hs.trans hcalm) h
        refine ⟨hcalm.trans hrest, fun hok hstat other hother => ?_⟩
        rcases List.mem_cons.mp hother with rfl | hother
        · have hloc : lstat mid.nodes (path ++ [other]) = some (q ++ [other]) := by
            rw [lstat_concat, stat_mono hrest.below hstat]
            rfl
          exact (hwiped rfl _ hloc).calm hrest
        · exact hnames hok hstat other hother

theorem entriesOf_eq (hf : Harmless d f top p) (hpath : top <+: path) (hs : Below s.nodes d.nodes)
    (hq : stat d.nodes path = some q) : entriesOf d f s path q =
      ((d.listing q).filter fun name => (s.nodes (q ++ [name])).isSome).map
        fun name => path ++ [name] := by
  rw [entriesOf, List.filter_eq_self]
  intro entry hentry
  obtain ⟨name, hname, rfl⟩ := List.mem_map.mp hentry
  have hthere := Option.isSome_iff_ne_none.mp (List.mem_filter.mp hname).2
  rw [hf.entries _ (q ++ [name]) (hpath.trans (List.prefix_append path [name])) (by
    rw [lstat_concat, hq]
    rfl) fun hnone => hthere (below_none hs hnone)]
  rfl

/-- The directory case, from its entries: what is below the location is blank before it goes. -/
theorem directory_wipes {out : ShredState × Except HostError Unit} (hs : Calm p d.start s)
    (hin : ∀ loc, lstat s.nodes (parent ++ [name]) = some loc → p <+: loc)
    (hq : stat s.nodes (parent ++ [name]) = some q) (hdir : s.nodes q = some .dir)
    (heach : Calm p s out.1 ∧ (out.2 = .ok () → stat out.1.nodes (parent ++ [name]) = some q →
      ∀ entry, s.nodes (q ++ [entry]) ≠ none → Wiped out.1 (q ++ [entry])))
    (hok : out.2 = .ok ()) :
    Wipes f p (parent ++ [name]) s (removeDirAll f out.1 (parent ++ [name]), .ok ()) := by
  obtain ⟨hcalm, hentries⟩ := heach
  have htree : Treed out.1.nodes := (hs.trans hcalm).treed d.treed
  have hnofile : ∀ loc, lstat out.1.nodes (parent ++ [name]) = some loc →
      ∀ bytes, out.1.nodes loc ≠ some (.file bytes) := by
    intro loc hloc bytes hnode
    have hstat := stat_of_lstat htree hloc hnode nofun
    rw [stat_mono hcalm.below hstat] at hq
    cases hq
    obtain ⟨node, hold, halike⟩ := hcalm.below _ _ hnode
    rw [hdir] at hold
    cases hold
    exact halike.elim
  have hwiped : ∀ loc, lstat out.1.nodes (parent ++ [name]) = some loc →
      p <+: loc ∧ Wiped out.1 loc := by
    intro loc hloc
    refine ⟨hin loc (lstat_mono hcalm.below hloc), ?_⟩
    cases hnode : out.1.nodes loc with
    | none => exact wiped_of_leaf htree (.inl hnode)
    | some node =>
      cases node with
      | link target => exact wiped_of_leaf htree (.inr ⟨target, hnode⟩)
      | file bytes => exact absurd hnode (hnofile loc hloc bytes)
      | dir =>
        have hstat := stat_of_lstat htree hloc hnode nofun
        have heq := Option.some.inj ((stat_mono hcalm.below hstat).symm.trans hq)
        subst heq
        rintro r bytes ⟨rest, rfl⟩ hfile
        cases rest with
        | nil =>
          rw [List.append_nil, hnode] at hfile
          cases hfile
        | cons entry rest =>
          have hsplit : loc ++ entry :: rest = loc ++ [entry] ++ rest := by simp
          have hthere : out.1.nodes (loc ++ [entry]) ≠ none := by
            by_cases hrest : rest = []
            · rw [hrest] at hfile
              rw [hfile]
              nofun
            · rw [hsplit] at hfile
              rw [dir_of_below htree hrest (by rw [hfile]; nofun)]
              nofun
          have hbefore : s.nodes (loc ++ [entry]) ≠ none :=
            fun hnone => hthere (below_none hcalm.below hnone)
          refine hentries hok hstat entry hbefore _ bytes ?_ hfile
          rw [hsplit]
          exact List.prefix_append _ rest
  have hremoved := calm_removeDirAll (f := f) hwiped
  refine ⟨hcalm.trans hremoved, fun _ loc hloc => ?_, fun _ hremove loc hloc => .inl ?_⟩
  · exact ((hwiped loc (lstat_mono hremoved.below hloc)).2).calm hremoved
  · have hloc' := lstat_mono hremoved.below hloc
    have hnofault := hremove q hq
    rw [if_pos hdir] at hnofault
    exact gone_removeDirAll hnofault hloc' fun bytes => hnofile loc hloc' bytes

/-- The case of a file: it is blank before its name, or the link that leads to it, goes. -/
theorem file_wipes {bytes : List UInt8} (hf : Harmless d f top p) (hs : Calm p d.start s)
    (hpath : top <+: parent ++ [name])
    (hin : ∀ loc, lstat s.nodes (parent ++ [name]) = some loc → p <+: loc)
    (hq : stat s.nodes (parent ++ [name]) = some q) (hfile : s.nodes q = some (.file bytes)) :
    Wipes f p (parent ++ [name]) s (removeFile f
      (if bytes = [] then s else overwrite f s (parent ++ [name]) q bytes) (parent ++ [name]),
      .ok ()) := by
  obtain ⟨mid, hmid, hcalm, hblank⟩ : ∃ mid,
      (if bytes = [] then s else overwrite f s (parent ++ [name]) q bytes) = mid ∧
      Calm p s mid ∧ mid.nodes q = some (.file (zeros bytes.length)) := by
    by_cases hempty : bytes = []
    · rw [hempty] at hfile
      exact ⟨s, if_pos hempty, .refl p s, by rw [hfile, hempty]; rfl⟩
    · have hwithin : p <+: q := by
        rcases stat_within hf hs hin hq with hwithin | hnone | ⟨hdir, -⟩
        · exact hwithin
        · rw [hfile] at hnone
          exact absurd (by injection Option.some.inj hnone) hempty
        · rw [hfile] at hdir
          cases hdir
      obtain ⟨node, hnode, halike⟩ := hs.below _ _ hfile
      obtain ⟨old, rfl⟩ := alike_file halike
      have hold : old ≠ [] := by
        rintro rfl
        rcases hs.erased q [] hnode with hsame | hzero | ⟨hnone, -⟩
        · rw [hfile] at hsame
          exact hempty (by injection Option.some.inj hsame)
        · rw [hfile] at hzero
          exact hempty (by injection Option.some.inj hzero)
        · rw [hfile] at hnone
          cases hnone
      obtain ⟨hcreate, hwrite⟩ := hf.writes _ q old hpath (stat_mono hs.below hq) hnode hold
      refine ⟨s.setNode q (some (.file (zeros bytes.length))), ?_, calm_setZeros hwithin hfile,
        Function.update_self ..⟩
      rw [if_neg hempty, overwrite, hcreate, hwrite]
      rfl
  have htree : Treed mid.nodes := (hs.trans hcalm).treed d.treed
  have hnodir : ∀ loc, lstat mid.nodes (parent ++ [name]) = some loc →
      mid.nodes loc ≠ some .dir := by
    intro loc hloc hnode
    have hstat := stat_of_lstat htree hloc hnode nofun
    rw [stat_mono hcalm.below hstat] at hq
    cases hq
    rw [hnode] at hblank
    cases hblank
  have hwiped : ∀ loc, lstat mid.nodes (parent ++ [name]) = some loc → p <+: loc ∧ Wiped mid loc := by
    intro loc hloc
    refine ⟨hin loc (lstat_mono hcalm.below hloc), ?_⟩
    cases hnode : mid.nodes loc with
    | none => exact wiped_of_leaf htree (.inl hnode)
    | some node =>
      cases node with
      | link target => exact wiped_of_leaf htree (.inr ⟨target, hnode⟩)
      | dir => exact absurd hnode (hnodir loc hloc)
      | file content =>
        have hstat := stat_of_lstat htree hloc hnode nofun
        rw [stat_mono hcalm.below hstat] at hq
        cases hq
        rintro r found ⟨rest, rfl⟩ hfound
        by_cases hrest : rest = []
        · rw [hrest, List.append_nil, hblank] at hfound
          cases hfound
          rw [length_zeros]
        · have hdir := dir_of_below htree hrest (by rw [hfound]; nofun)
          rw [hnode] at hdir
          cases hdir
  rw [hmid]
  have hremoved := calm_removeFile (f := f) fun loc hloc =>
    ⟨(hwiped loc hloc).1, fun _ => (hwiped loc hloc).2⟩
  refine ⟨hcalm.trans hremoved, fun _ loc hloc => ?_, fun _ hremove loc hloc => .inl ?_⟩
  · exact ((hwiped loc (lstat_mono hremoved.below hloc)).2).calm hremoved
  · have hloc' := lstat_mono hremoved.below hloc
    have hnofault := hremove q hq
    rw [if_neg (by rw [hfile]; nofun)] at hnofault
    exact gone_removeFile hnofault hloc' (hnodir loc hloc')

theorem shred_wipes (hf : Harmless d f top p) (hroot : p ≠ []) {fuel : Nat} (hs : Calm p d.start s)
    (hpath : top <+: parent ++ [name])
    (hin : ∀ loc, lstat s.nodes (parent ++ [name]) = some loc → p <+: loc)
    {out : ShredState × Except HostError Unit}
    (h : shredAndRemove d f fuel (parent ++ [name]) s = some out) :
    Wipes f p (parent ++ [name]) s out := by
  induction fuel generalizing parent name s out with
  | zero => cases h
  | succ fuel ih =>
    have htree : Treed s.nodes := hs.treed d.treed
    rw [shredAndRemove] at h
    cases hq : stat s.nodes (parent ++ [name]) with
    | none =>
      rw [hq] at h
      cases h
      have hleaf : ∀ loc, lstat s.nodes (parent ++ [name]) = some loc →
          s.nodes loc = none ∨ ∃ target, s.nodes loc = some (.link target) := by
        intro loc hloc
        by_contra hnode
        obtain ⟨hsome, hlink⟩ := not_or.mp hnode
        obtain ⟨node, hnode⟩ := Option.ne_none_iff_exists'.mp hsome
        have hstat := stat_of_lstat htree hloc hnode fun target heq =>
          hlink ⟨target, heq ▸ hnode⟩
        rw [hq] at hstat
        cases hstat
      exact ⟨.refl p s, fun _ loc hloc => wiped_of_leaf htree (hleaf loc hloc),
        fun _ _ loc hloc => (hleaf loc hloc).imp_right fun hlink => ⟨hq, hlink⟩⟩
    | some q =>
      have hstart : s.nodes [] = some .dir := by
        rw [hs.outside [] fun hprefix => hroot (List.prefix_nil.mp hprefix)]
        exact d.root
      obtain ⟨node, hnode, hlink⟩ := follow_lands hstart hstart hq
      rw [hq] at h
      dsimp only at h
      rw [hnode] at h
      cases node with
      | link target => exact absurd rfl (hlink target)
      | file bytes =>
        cases h
        exact file_wipes hf hs hpath hin hq hnode
      | dir =>
        dsimp only at h
        cases hlist : f.list (parent ++ [name]) with
        | some err =>
          rw [hlist] at h
          cases h
          exact ⟨.refl p s, nofun, nofun⟩
        | none =>
          rw [hlist, entriesOf_eq hf hpath hs.below (stat_mono hs.below hq)] at h
          dsimp only at h
          have hwithin : ∀ names, names = (d.listing q).filter (fun name =>
              (s.nodes (q ++ [name])).isSome) → names ≠ [] → p <+: q := by
            rintro names rfl hnames
            rcases stat_within hf hs hin hq with hwithin | hfile | ⟨-, hempty⟩
            · exact hwithin
            · rw [hnode] at hfile
              cases hfile
            · obtain ⟨entry, hentry⟩ := List.exists_mem_of_ne_nil _ hnames
              have hsome := (List.mem_filter.mp hentry).2
              rw [hempty entry] at hsome
              cases hsome
          cases hout : each (shredAndRemove d f fuel) _ s with
          | none =>
            rw [hout] at h
            cases h
          | some mid =>
            have heach := each_wipes (fun entry _ s' out hs' hin' hcall =>
              ih hs' (hpath.trans (List.prefix_append _ [entry])) hin' hcall)
              (stat_mono hs.below hq) (hwithin _ rfl) hs hout
            obtain ⟨mid, result⟩ := mid
            rw [hout] at h
            cases result with
            | error err =>
              cases h
              exact ⟨heach.1, nofun, nofun⟩
            | ok =>
              cases h
              refine directory_wipes hs hin hq hnode ⟨heach.1, fun hok hstat entry hentry => ?_⟩ rfl
              refine heach.2 hok hstat entry (List.mem_filter.mpr ⟨?_, ?_⟩)
              · exact d.listed q entry fun hnone => hentry (below_none hs.below hnone)
              · exact Option.isSome_iff_ne_none.mpr hentry

end Calls

section Ends
variable {d : Disk} {f : ShredFaults} {s s' : ShredState} {path : List String} {q loc : Loc}

theorem setNode_nodes (node : Option Node) :
    (s.setNode loc node).nodes = Function.update s.nodes loc node := rfl

theorem unlink_nodes : (s.unlink loc).nodes = Function.update s.nodes loc none := rfl

theorem below_overwrite {bytes : List UInt8} (hfile : s.nodes q = some (.file bytes)) :
    Below (overwrite f s path q bytes).nodes s.nodes := by
  have hset : ∀ content, Below (s.setNode q (some (.file content))).nodes s.nodes := by
    intro content r node hnode
    by_cases hr : r = q
    · subst hr
      rw [setNode_nodes, Function.update_self] at hnode
      cases hnode
      exact ⟨_, hfile, trivial⟩
    · rw [setNode_nodes, Function.update_of_ne hr] at hnode
      exact ⟨node, hnode, .refl node⟩
  rw [overwrite]
  split
  · exact .refl _
  · split
    · exact hset _
    · exact hset _

theorem below_unlink : Below (s.unlink loc).nodes s.nodes := by
  intro r node hnode
  by_cases hr : r = loc
  · subst hr
    rw [unlink_nodes, Function.update_self] at hnode
    cases hnode
  · rw [unlink_nodes, Function.update_of_ne hr] at hnode
    exact ⟨node, hnode, .refl node⟩

theorem below_removeTree (remains : List Loc) : Below (s.removeTree loc remains).nodes s.nodes := by
  intro r node hnode
  rw [ShredState.removeTree] at hnode
  dsimp only at hnode
  split at hnode
  · cases hnode
  · exact ⟨node, hnode, .refl node⟩

theorem below_removeFile : Below (removeFile f s path).nodes s.nodes := by
  rw [removeFile]
  split
  · exact .refl _
  · split
    · exact .refl _
    · split
      · exact below_unlink
      · exact below_unlink
      · exact .refl _

theorem below_removeDirAll : Below (removeDirAll f s path).nodes s.nodes := by
  rw [removeDirAll]
  split
  · exact .refl _
  · split
    · split
      · exact .refl _
      · exact below_unlink
    · exact below_removeTree _
    · exact .refl _

theorem each_ends {nodes : Nodes} {call : List String → ShredState → Outcome}
    {paths : List (List String)}
    (hcall : ∀ path ∈ paths, ∀ s, Below s.nodes nodes →
      ∃ out, call path s = some out ∧ Below out.1.nodes nodes) (hs : Below s.nodes nodes) :
    ∃ out, each call paths s = some out ∧ Below out.1.nodes nodes := by
  induction paths generalizing s with
  | nil => exact ⟨_, rfl, hs⟩
  | cons path rest ih =>
    obtain ⟨⟨mid, result⟩, hmid, hbelow⟩ := hcall path List.mem_cons_self s hs
    rw [each, hmid]
    cases result with
    | error err => exact ⟨_, rfl, hbelow⟩
    | ok => exact ih (fun path hpath => hcall path (List.mem_cons_of_mem _ hpath)) hbelow

/-- The recursion ends: a path that is too long leads nowhere, and nothing is ever added. -/
theorem shredAndRemove_ends {fuel : Nat} (hs : Below s.nodes d.nodes) (hfuel : 0 < fuel)
    (hlen : reach d.depth maxFollow + 2 ≤ fuel + path.length) :
    ∃ out, shredAndRemove d f fuel path s = some out ∧ Below out.1.nodes d.nodes := by
  induction fuel generalizing path s with
  | zero => exact absurd hfuel (Nat.lt_irrefl 0)
  | succ fuel ih =>
    rw [shredAndRemove]
    cases hq : stat s.nodes path with
    | none => exact ⟨_, rfl, hs⟩
    | some q =>
      have hshort := length_of_follow d.shallow (Nat.zero_le _) (stat_mono (s := d.start) hs hq)
      rw [List.length_nil, Nat.zero_add] at hshort
      dsimp only
      cases hnode : s.nodes q with
      | none => exact ⟨_, rfl, hs⟩
      | some node =>
        cases node with
        | link target => exact ⟨_, rfl, hs⟩
        | file bytes =>
          refine ⟨_, rfl, below_removeFile.trans (.trans ?_ hs)⟩
          split
          · exact .refl _
          · exact below_overwrite hnode
        | dir =>
          dsimp only
          cases f.list path with
          | some err => exact ⟨_, rfl, hs⟩
          | none =>
            have hentries : ∀ entry ∈ entriesOf d f s path q, ∀ s, Below s.nodes d.nodes →
                ∃ out, shredAndRemove d f fuel entry s = some out ∧ Below out.1.nodes d.nodes := by
              intro entry hentry s hs
              obtain ⟨name, -, rfl⟩ := List.mem_map.mp (List.mem_filter.mp hentry).1
              refine ih hs (by omega) ?_
              rw [List.length_append, List.length_singleton]
              omega
            obtain ⟨⟨mid, result⟩, hmid, hbelow⟩ := each_ends hentries hs
            dsimp only
            rw [hmid]
            cases result with
            | error err => exact ⟨_, rfl, hbelow⟩
            | ok => exact ⟨_, rfl, below_removeDirAll.trans hbelow⟩

end Ends

section Branches
variable {d : Disk} {f : ShredFaults} {path : List String} {loc : Loc}

theorem lstat_findShred {s : ShredState} (noise : Nat → List UInt8)
    (htree : Treed s.nodes) (h : lstat s.nodes path = some loc) (hthere : s.nodes loc ≠ none) :
    lstat (findShred noise s loc).nodes path = some loc := by
  rcases path.eq_nil_or_concat' with rfl | ⟨parent, name, rfl⟩
  · exact h
  · rw [lstat_concat] at h ⊢
    obtain ⟨r, hr, rfl⟩ := Option.map_eq_some_iff.mp h
    have hdir := htree r name hthere
    rw [show stat (findShred noise s (r ++ [name])).nodes parent = some r from
      follow_of_dirs (fun q node hnode hfile => ?_) hdir hr]
    · rfl
    · rw [findShred]
      dsimp only
      rw [hnode]
      cases node with
      | file bytes => exact absurd rfl (hfile bytes)
      | link | dir => rfl

/-- The tools follow no link and stop at the first failure. -/
theorem sudoShredAndRemove_shredded {noise : Nat → List UInt8} {find rm : Option ToolFault}
    {s : ShredState} (hloc : lstat d.nodes path = some loc)
    (h : sudoShredAndRemove noise find rm path d.start = (s, .ok ())) :
    Shredded d loc noise s := by
  rw [sudoShredAndRemove.eq_def, show lstat d.start.nodes path = some loc from hloc] at h
  cases find with
  | some fault => cases h
  | none =>
    dsimp only at h
    split at h
    · cases h
    next hthere =>
      rw [lstat_findShred noise d.treed hloc hthere] at h
      cases rm with
      | some fault => cases h
      | none =>
        cases h
        have hkept : ∀ q : Loc, ¬ ∃ x ∈ ([] : List Loc), q <+: x := by simp
        refine ⟨fun q hq => if_pos ⟨hq, hkept q⟩, fun q bytes hq hfile => ?_,
          fun q hq => ?_⟩
        · have hfile' : d.start.nodes q = some (.file bytes) := hfile
          rw [ShredState.removeTree]
          dsimp only
          rw [if_pos ⟨hq, hkept q⟩, findShred]
          dsimp only
          rw [hfile']
          dsimp only
          rw [if_pos hq, if_pos hq]
        · rw [ShredState.removeTree]
          dsimp only
          rw [if_neg fun hgone => hq hgone.1, findShred]
          dsimp only
          cases hnode : d.start.nodes q with
          | none => exact hnode.symm
          | some node =>
            cases node with
            | file bytes =>
              dsimp only
              rw [if_neg hq]
              exact hnode.symm
            | link | dir => exact hnode.symm

/-- What the way to the path is leads there for as long as only the tree changes. -/
theorem lstat_of_way (hf : Harmless d f path loc) {s : ShredState}
    (houtside : ∀ q, ¬ loc <+: q → s.nodes q = d.nodes q) : lstat s.nodes path = some loc := by
  obtain ⟨parent, name, rfl⟩ := path.eq_nil_or_concat'.resolve_left hf.named
  have hbelow : Below (⟨d.without loc, s.freed⟩ : ShredState).nodes s.nodes := by
    intro q node hnode
    have hwithout : d.without loc q = some node := hnode
    have hq : ¬ loc <+: q := by
      intro hq
      rw [Disk.without, if_pos hq] at hwithout
      cases hwithout
    rw [Disk.without, if_neg hq, ← houtside q hq] at hwithout
    exact ⟨node, hwithout, .refl node⟩
  exact lstat_mono hbelow hf.way

theorem shredAndRemove_shredded (hf : Harmless d f path loc) {fuel : Nat} {s : ShredState}
    (h : shredAndRemove d f fuel path d.start = some (s, .ok ())) : Shredded d loc zeros s := by
  have hhere := lstat_of_way hf (s := d.start) fun _ _ => rfl
  obtain ⟨parent, name, rfl⟩ := path.eq_nil_or_concat'.resolve_left hf.named
  have hroot : loc ≠ [] := by
    rw [lstat_concat] at hhere
    obtain ⟨r, -, rfl⟩ := Option.map_eq_some_iff.mp hhere
    simp
  have hwipes := shred_wipes hf hroot (.refl _ d.start) (List.prefix_refl _) (fun q hq => by
    rw [hhere] at hq
    rw [Option.some.inj hq]) h
  have htree : Treed s.nodes := hwipes.calm.treed d.treed
  have hgone : s.nodes loc = none := by
    rcases hwipes.gone rfl hf.removal _ (lstat_of_way hf hwipes.calm.outside) with
      hnone | ⟨hstat, target, hlink⟩
    · exact hnone
    · obtain ⟨node, hnode, halike⟩ := hwipes.calm.below _ _ hlink
      rw [alike_link halike] at hnode
      have htop := hf.top target hnode
      rw [show stat d.nodes (parent ++ [name]) = none from hstat] at htop
      cases htop
  have hnone : ∀ q, loc <+: q → s.nodes q = none := by
    rintro q ⟨rest, rfl⟩
    by_contra hthere
    by_cases hrest : rest = []
    · rw [hrest, List.append_nil] at hthere
      exact hthere hgone
    · have hdir := dir_of_below htree hrest hthere
      rw [hgone] at hdir
      cases hdir
  refine ⟨hnone, fun q bytes hq hfile => ?_, hwipes.calm.outside⟩
  rcases hwipes.calm.erased q bytes hfile with hsame | hzero | ⟨-, hfreed⟩
  · rw [hnone q hq] at hsame
    cases hsame
  · rw [hnone q hq] at hzero
    cases hzero
  · exact hfreed

/-- What a tree leaves when it is shredded does not depend on how. -/
theorem Shredded.nodes_eq {blank blank' : Nat → List UInt8} {s s' : ShredState}
    (h : Shredded d loc blank s) (h' : Shredded d loc blank' s') : s.nodes = s'.nodes := by
  funext q
  by_cases hq : loc <+: q
  · rw [h.gone q hq, h'.gone q hq]
  · rw [h.outside q hq, h'.outside q hq]

/-- Enough steps for the recursion: no path that leads anywhere is longer. -/
def Disk.steps (d : Disk) : Nat := reach d.depth maxFollow + 2

/-- With no harm that it can do, the branch that runs as root comes to its end; if it succeeds, the
tree was overwritten and is gone, nothing else changed, and the branch that elevates, which never
does harm, leaves the same file system. -/
theorem shredAndRemove_safe :
    (∃ out, shredAndRemove d f d.steps path d.start = some out) ∧
    (∀ noise find rm s, lstat d.nodes path = some loc →
      sudoShredAndRemove noise find rm path d.start = (s, .ok ()) → Shredded d loc noise s) ∧
    (Harmless d f path loc → ∀ fuel s, shredAndRemove d f fuel path d.start = some (s, .ok ()) →
      Shredded d loc zeros s ∧ ∀ noise find rm s',
        sudoShredAndRemove noise find rm path d.start = (s', .ok ()) → s'.nodes = s.nodes) := by
  refine ⟨?_, fun noise find rm s hloc h => sudoShredAndRemove_shredded hloc h,
    fun hf fuel s h => ?_⟩
  · have hends : ∃ out, shredAndRemove d f d.steps path d.start = some out ∧
        Below out.1.nodes d.nodes :=
      shredAndRemove_ends (.refl d.nodes) (Nat.succ_pos _) (Nat.le_add_right _ _)
    exact hends.imp fun _ hout => hout.1
  · have hshredded := shredAndRemove_shredded hf h
    refine ⟨hshredded, fun noise find rm s' h' => ?_⟩
    have hloc : lstat d.nodes path = some loc := lstat_of_way hf (s := d.start) fun _ _ => rfl
    exact (sudoShredAndRemove_shredded hloc h').nodes_eq hshredded

end Branches

section Snapshot

theorem length_le_of_mem {entries : List (Loc × Node)} {e : Loc × Node} (h : e ∈ entries) :
    e.1.length ≤ (entries.map fun e => e.1.length).sum := by
  exact List.le_sum_of_mem (List.mem_map_of_mem h)

/-- A file system from its entries. -/
def diskOf (entries : List (Loc × Node)) (hroot : nodesOf entries [] = some .dir)
    (htreed : ∀ e ∈ entries, e.1 = [] ∨ nodesOf entries e.1.dropLast = some .dir) : Disk where
  nodes := nodesOf entries
  listing r := entries.filterMap fun e => if e.1.dropLast = r then e.1.getLast? else none
  depth := (entries.map fun e => e.1.length).sum
  root := hroot
  shallow loc h := by
    obtain ⟨node, hnode⟩ := Option.ne_none_iff_exists'.mp h
    exact length_le_of_mem (mem_of_nodesOf hnode)
  treed := treed_nodesOf htreed
  listed r name h := by
    obtain ⟨node, hnode⟩ := Option.ne_none_iff_exists'.mp h
    refine List.mem_filterMap.mpr ⟨_, mem_of_nodesOf hnode, ?_⟩
    rw [List.dropLast_concat, if_pos rfl, List.getLast?_concat]

/-- A snapshot with one file and one link. -/
def snapshotEntries (target : List String) : List (Loc × Node) :=
  [([], .dir), (["etc"], .dir), (["etc", "f"], .file [7]), (["b"], .dir),
    (["b", "k"], .file [1, 2]), (["b", "l"], .link target)]

def snapshotDisk (target : List String) : Disk :=
  diskOf (snapshotEntries target) rfl (by
    unfold snapshotEntries
    repeat rw [List.forall_mem_cons]
    exact ⟨.inl rfl, .inr rfl, .inr rfl, .inr rfl, .inr rfl, .inr rfl, nofun⟩)

def noFaults : ShredFaults where
  list _ := none
  entry _ := false
  create _ := false
  write _ := none
  remove _ := false
  removeAll _ := none

theorem harmless_snapshot : Harmless (snapshotDisk ["b", "k"]) noFaults ["b"] ["b"] where
  named := nofun
  way := by decide +kernel
  top := nofun
  links q target r _ hlink hr := by
    have hmem : (q, .link target) ∈ snapshotEntries ["b", "k"] := mem_of_nodesOf hlink
    simp only [snapshotEntries, List.mem_cons, Prod.mk.injEq, reduceCtorEq, and_false, false_or,
      Node.link.injEq, List.not_mem_nil, or_false] at hmem
    rw [hmem.2] at hr
    have hwhere : follow (snapshotDisk ["b", "k"]).nodes (maxFollow - 1) [] ["b", "k"] =
        some ["b", "k"] := by decide +kernel
    rw [hwhere] at hr
    cases hr
    exact .inl ⟨["k"], rfl⟩
  entries _ _ _ _ _ := rfl
  writes _ _ _ _ _ _ _ := ⟨rfl, rfl⟩
  removal q _ := by
    split
    · rfl
    · rfl

/-- The link inside the snapshot does no harm. -/
theorem shredAndRemove_safe_snapshot :
    ∀ fuel s, shredAndRemove (snapshotDisk ["b", "k"]) noFaults fuel ["b"]
      (snapshotDisk ["b", "k"]).start = some (s, .ok ()) →
        Shredded (snapshotDisk ["b", "k"]) ["b"] zeros s := by
  intro fuel s h
  exact ((shredAndRemove_safe (d := snapshotDisk ["b", "k"]) (f := noFaults)).2.2
    harmless_snapshot fuel s h).1

/-- The link to a file outside: the file is overwritten, and stays. -/
theorem shredAndRemove_overwrites_outside :
    ¬ ∀ d f path loc fuel s, lstat d.nodes path = some loc →
      shredAndRemove d f fuel path d.start = some (s, .ok ()) → Shredded d loc zeros s := by
  intro hall
  have hrun : ((shredAndRemove (snapshotDisk ["etc", "f"]) noFaults 3 ["b"]
      (snapshotDisk ["etc", "f"]).start).map fun out =>
        (out.2.isOk, out.1.nodes ["etc", "f"])) = some (true, some (.file [0])) := by
    decide +kernel
  obtain ⟨⟨s, result⟩, hout, hvalue⟩ := Option.map_eq_some_iff.mp hrun
  cases result with
  | error err => cases hvalue
  | ok =>
    have hloc : lstat (snapshotDisk ["etc", "f"]).nodes ["b"] = some ["b"] := by decide +kernel
    have houtside := (hall _ _ _ _ 3 s hloc hout).outside ["etc", "f"] (by decide)
    have hzeroed : s.nodes ["etc", "f"] = some (.file [0]) := (Prod.mk.inj hvalue).2
    rw [hzeroed] at houtside
    revert houtside
    decide +kernel

end Snapshot

end Shellflow.Shred
