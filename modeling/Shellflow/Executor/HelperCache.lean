import Shellflow.Lib.Bytes
import Shellflow.Lib.Fallible
import Shellflow.Lib.Frames
import Shellflow.Lib.Str

/-! The cache of built helpers: its key is a digest of the build inputs, and what a call finds under
the key is what the first copy to it left there. -/
namespace Shellflow.HelperCache
open Frames

/-- What reading a file gives. -/
inductive Read
  | bytes (content : List UInt8)
  | absent
  | failed

mutual

/-- What a name in a plain source directory stands for. -/
inductive Node
  | file (read : Read)
  | link (target : List UInt8)
  | dir (entries : Listing)
  | unreadable

inductive Listing
  | nil
  | cons (name : List UInt8) (node : Node) (rest : Listing)

end

/-- A source directory: what git says of it, its files by their relative path, and its tree, if it
can be listed. -/
structure Source where
  gitLsFiles : Option (List UInt8)
  read : List UInt8 → Read
  tree : Option Listing
  lockIsFile : Bool

def leBytes : List UInt8 → List UInt8 → Bool
  | [], _ => true
  | _ :: _, [] => false
  | a :: l, b :: m => a < b || (a == b && leBytes l m)

/-- Paths are compared by their components. -/
def lePath : List (List UInt8) → List (List UInt8) → Bool
  | [], _ => true
  | _ :: _, [] => false
  | a :: l, b :: m => if a = b then lePath l m else leBytes a b

def components (path : List UInt8) : List (List UInt8) :=
  (path.splitOn (UInt8.ofNat 47)).filter fun part => part ≠ []

/-- The files git considers part of the worktree. -/
def gitInputs (s : Source) : Option (List (List UInt8)) :=
  s.gitLsFiles.bind fun out =>
    let files := (out.splitOn 0).filter fun path => path ≠ []
    if files = [] then none
    else some (files.mergeSort fun a b => lePath (components a) (components b))

/-- The name, the length and the contents of a file; one that is absent has none. -/
def hashFile (rel : List UInt8) (read : Read) (hasher : List UInt8) : Option (List UInt8) :=
  match read with
  | .bytes content => some (hasher ++ rel ++ le64 content.length ++ content)
  | .absent => some (hasher ++ rel ++ le64 0)
  | .failed => none

def hashFiles (s : Source) : List (List UInt8) → List UInt8 → Option (List UInt8)
  | [], hasher => some hasher
  | rel :: files, hasher => (hashFile rel (s.read rel) hasher).bind (hashFiles s files)

def asciiBytes (text : String) : List UInt8 := Bytes.encode text.toList

/-- Generated state, not sources. -/
def isSkipped (name : List UInt8) : Bool :=
  name.head? == some (UInt8.ofNat 46) || name == asciiBytes "target" ||
    name == asciiBytes "mutants.out"

/-- The path of a name below a directory of the source. -/
def below (dir name : List UInt8) : List UInt8 :=
  if dir = [] then name else dir ++ UInt8.ofNat 47 :: name

def Listing.insert (name : List UInt8) (node : Node) : Listing → Listing
  | .nil => .cons name node .nil
  | .cons other its rest =>
    if leBytes name other then .cons name node (.cons other its rest)
    else .cons other its (insert name node rest)

mutual

/-- Every directory in the order of its names. -/
def Node.sort : Node → Node
  | .dir entries => .dir entries.sort
  | node => node

def Listing.sort : Listing → Listing
  | .nil => .nil
  | .cons name node rest => rest.sort.insert name node.sort

end

mutual

def hashNode (rel name : List UInt8) (hasher : List UInt8) : Node → Option (List UInt8)
  | .link target => some (hasher ++ rel ++ target)
  | .dir entries => if isSkipped name then some hasher else hashTree rel hasher entries
  | .file read => hashFile rel read hasher
  | .unreadable => none

/-- A tree that git cannot describe; its links are not followed. -/
def hashTree (dir : List UInt8) (hasher : List UInt8) : Listing → Option (List UInt8)
  | .nil => some hasher
  | .cons name node rest =>
    (hashNode (below dir name) name hasher node).bind fun hasher => hashTree dir hasher rest

end

def lockName : List UInt8 := asciiBytes "Cargo.lock"

/-- What the digest of a source is taken of. -/
def hashed (s : Source) : Option (List UInt8) :=
  let tree :=
    match gitInputs s with
    | some files => hashFiles s files []
    | none => s.tree.bind fun entries => hashTree [] [] entries.sort
  tree.bind fun hasher => if s.lockIsFile then hashFile lockName (s.read lockName) hasher else some hasher

section Revision
variable (digest : List UInt8 → List UInt8)

/-- The key of the cache: the first six bytes of the digest. -/
def sourceRevision (s : Source) : Option String :=
  (hashed s).map fun bytes => String.ofList (Bytes.hexChars ((digest bytes).take 6))

end Revision

/-- What is fed to the digest, piece by piece. -/
inductive Input
  | file (record : Record)
  | link (rel target : List UInt8)
deriving DecidableEq

def Input.bytes : Input → List UInt8
  | .file record => frame record
  | .link rel target => rel ++ target

def fileInput (rel : List UInt8) : Read → Option Input
  | .bytes content => some (.file (rel, content))
  | .absent => some (.file (rel, []))
  | .failed => none

mutual

def nodeInputs (rel name : List UInt8) : Node → Option (List Input)
  | .link target => some [.link rel target]
  | .dir entries => if isSkipped name then some [] else treeInputs rel entries
  | .file read => (fileInput rel read).map fun input => [input]
  | .unreadable => none

def treeInputs (dir : List UInt8) : Listing → Option (List Input)
  | .nil => some []
  | .cons name node rest =>
    (nodeInputs (below dir name) name node).bind fun here => (treeInputs dir rest).map (here ++ ·)

end

/-- The build inputs of a source. -/
def inputs (s : Source) : Option (List Input) :=
  let tree :=
    match gitInputs s with
    | some files => files.mapM fun rel => fileInput rel (s.read rel)
    | none => s.tree.bind fun entries => treeInputs [] entries.sort
  tree.bind fun found =>
    if s.lockIsFile then (fileInput lockName (s.read lockName)).map fun lock => found ++ [lock]
    else some found

section Hashed

theorem hashFile_eq (rel : List UInt8) (read : Read) (hasher : List UInt8) :
    hashFile rel read hasher = (fileInput rel read).map fun input => hasher ++ input.bytes := by
  cases read with
  | bytes content => simp [hashFile, fileInput, Input.bytes, frame]
  | absent => simp [hashFile, fileInput, Input.bytes, frame]
  | failed => rfl

theorem hashFiles_eq (s : Source) (files : List (List UInt8)) (hasher : List UInt8) :
    hashFiles s files hasher =
      (files.mapM fun rel => fileInput rel (s.read rel)).map fun found =>
        hasher ++ found.flatMap Input.bytes := by
  induction files generalizing hasher with
  | nil => simp [hashFiles]
  | cons rel files ih =>
    rw [hashFiles, hashFile_eq, List.mapM_cons]
    cases fileInput rel (s.read rel) with
    | none => rfl
    | some input =>
      rw [Option.map_some, Option.bind_some, ih]
      cases files.mapM fun rel => fileInput rel (s.read rel) with
      | none => rfl
      | some found => simp

mutual

theorem hashNode_eq (rel name hasher : List UInt8) (node : Node) :
    hashNode rel name hasher node =
      (nodeInputs rel name node).map fun found => hasher ++ found.flatMap Input.bytes := by
  cases node with
  | file read =>
    rw [hashNode, nodeInputs, hashFile_eq, Option.map_map]
    simp [Function.comp_def]
  | link target => simp [hashNode, nodeInputs, Input.bytes]
  | unreadable => rfl
  | dir entries =>
    rw [hashNode, nodeInputs]
    split
    · simp
    · exact hashTree_eq rel hasher entries

theorem hashTree_eq (dir hasher : List UInt8) (entries : Listing) :
    hashTree dir hasher entries =
      (treeInputs dir entries).map fun found => hasher ++ found.flatMap Input.bytes := by
  cases entries with
  | nil => simp [hashTree, treeInputs]
  | cons name node rest =>
    rw [hashTree, treeInputs, hashNode_eq (below dir name) name hasher node]
    cases nodeInputs (below dir name) name node with
    | none => rfl
    | some here =>
      rw [Option.map_some, Option.bind_some, Option.bind_some, hashTree_eq dir _ rest]
      cases treeInputs dir rest with
      | none => rfl
      | some found => simp

end

/-- The digest is taken of the inputs, one after another. -/
theorem hashed_eq (s : Source) : hashed s = (inputs s).map fun found => found.flatMap Input.bytes := by
  have hlock : ∀ found : List Input,
      (if s.lockIsFile then hashFile lockName (s.read lockName) (found.flatMap Input.bytes)
        else some (found.flatMap Input.bytes)) =
      (if s.lockIsFile then (fileInput lockName (s.read lockName)).map fun lock => found ++ [lock]
        else some found).map fun found => found.flatMap Input.bytes := by
    intro found
    split
    · rw [hashFile_eq, Option.map_map]
      simp [Function.comp_def]
    · rfl
  rw [hashed, inputs]
  cases gitInputs s with
  | some files =>
    dsimp only
    rw [hashFiles_eq]
    cases files.mapM fun rel => fileInput rel (s.read rel) with
    | none => rfl
    | some found => exact hlock found
  | none =>
    cases s.tree with
    | none => rfl
    | some entries =>
      dsimp only
      rw [Option.bind_some, Option.bind_some, hashTree_eq]
      cases treeInputs [] entries.sort with
      | none => rfl
      | some found => exact hlock found

end Hashed

section Key
variable (digest : List UInt8 → List UInt8) {s s' : Source} {l l' : List Record}

/-- The key, which is half a dozen bytes of the digest, separates what the two sources hash. -/
def NoCollision (s s' : Source) : Prop :=
  ∀ bytes bytes', hashed s = some bytes → hashed s' = some bytes' →
    (digest bytes).take 6 = (digest bytes').take 6 → bytes = bytes'

/-- The inputs of the source are these files. -/
structure Plain (s : Source) (l : List Record) : Prop where
  inputs : inputs s = some (l.map Input.file)
  fit : Fit l

theorem Plain.hashed (h : Plain s l) : hashed s = some (frames l) := by
  rw [hashed_eq, h.inputs, Option.map_some, List.flatMap_map]
  rfl

theorem sourceRevision_inj (hs : Plain s l) (hs' : Plain s' l') (hdigest : NoCollision digest s s')
    (h : sourceRevision digest s = sourceRevision digest s') : frames l = frames l' := by
  rw [sourceRevision, sourceRevision, hs.hashed, hs'.hashed, Option.map_some, Option.map_some,
    Option.some.injEq] at h
  exact hdigest _ _ hs.hashed hs'.hashed (Bytes.hexChars_inj (String.ofList_inj.mp h))

end Key

/-- A checkout with one file. -/
def checkout (content : String) : Source where
  gitLsFiles := some (asciiBytes "main.rs" ++ [0])
  read rel := if rel = asciiBytes "main.rs" then .bytes (asciiBytes content) else .absent
  tree := none
  lockIsFile := false

/-- A digest that tells the last bytes apart. -/
def lastBytes (bytes : List UInt8) : List UInt8 := bytes.reverse ++ List.replicate 6 0

theorem plain_checkout (content : String) (h : (asciiBytes content).length < 256 ^ 7) :
    Plain (checkout content) [(asciiBytes "main.rs", asciiBytes content)] where
  inputs := by
    have hgit : gitInputs (checkout content) = some [asciiBytes "main.rs"] := by
      have hsplit : ((asciiBytes "main.rs" ++ [0]).splitOn 0).filter (fun path => path ≠ []) =
          [asciiBytes "main.rs"] := by decide
      simp only [gitInputs, checkout, Option.bind_some, hsplit]
      simp
    rw [inputs, hgit]
    simp [checkout, fileInput]
  fit := by simpa [Fit] using h

theorem noCollision_checkout : ∀ content ∈ ["a", "b"], ∀ other ∈ ["a", "b"],
    NoCollision lastBytes (checkout content) (checkout other) := by
  intro content hcontent other hother bytes bytes' h h'
  have hlen : ∀ text ∈ ["a", "b"], (asciiBytes text).length < 256 ^ 7 := by decide
  rw [(plain_checkout content (hlen content hcontent)).hashed, Option.some.injEq] at h
  rw [(plain_checkout other (hlen other hother)).hashed, Option.some.injEq] at h'
  have hall : ∀ text ∈ ["a", "b"], ∀ text' ∈ ["a", "b"],
      (lastBytes (frames [(asciiBytes "main.rs", asciiBytes text)])).take 6 =
        (lastBytes (frames [(asciiBytes "main.rs", asciiBytes text')])).take 6 →
      frames [(asciiBytes "main.rs", asciiBytes text)] =
        frames [(asciiBytes "main.rs", asciiBytes text')] := by decide
  rw [← h, ← h']
  exact hall content hcontent other hother

section Cache
variable (digest : List UInt8 → List UInt8)

inductive CopyEnd
  | notOpened
  | stopped
  | finished
deriving DecidableEq, Repr

/-- A call for a helper, and what it meets: the source when it is hashed and when cargo reads it,
and how the steps of the build end. -/
structure Call where
  source : Source
  triple : String
  dirMade : Bool
  atBuild : Source
  cargo : Bool
  copy : CopyEnd

/-- What stands at the path of a cached binary. -/
structure Artifact where
  source : Source
  triple : String
  whole : Bool

/-- What the build leaves at its output, and whether it succeeded. -/
def buildHelper (call : Call) : Option Artifact × Bool :=
  if !call.cargo then (none, false)
  else
    match call.copy with
    | .notOpened => (none, false)
    | .stopped => (some ⟨call.atBuild, call.triple, false⟩, false)
    | .finished => (some ⟨call.atBuild, call.triple, true⟩, true)

abbrev Cache := List (String × Artifact)

/-- The helper and its revision, or none for an error. -/
def cachedHelper (cache : Cache) (call : Call) : Cache × Option (Artifact × String) :=
  match sourceRevision digest call.source with
  | none => (cache, none)
  | some revision =>
    let dir := "helper-" ++ revision ++ "-" ++ call.triple
    match cache.lookup dir with
    | some binary => (cache, some (binary, revision))
    | none =>
      if !call.dirMade then (cache, none)
      else
        match buildHelper call with
        | (none, _) => (cache, none)
        | (some binary, built) =>
          (cache ++ [(dir, binary)], if built then some (binary, revision) else none)

/-- The cache after some calls. -/
def cacheAfter (calls : List Call) : Cache :=
  calls.foldl (fun cache call => (cachedHelper digest cache call).1) []

def keyOf (call : Call) : Option String :=
  (sourceRevision digest call.source).map fun revision => "helper-" ++ revision ++ "-" ++ call.triple

/-- A call that gets as far as the copy, if it builds. -/
def copies (call : Call) : Bool := call.dirMade && (buildHelper call).1.isSome

/-- The first call that copied a binary to a key. -/
def firstCopy (calls : List Call) (key : String) : Option Call :=
  calls.find? fun call => copies call && keyOf digest call == some key

/-- The sources of the calls are texts, and the key separates them. -/
structure Separated (calls : List Call) : Prop where
  texts : ∀ call ∈ calls, ∃ l, Plain call.source l ∧ Texts l
  apart : ∀ call ∈ calls, ∀ other ∈ calls, NoCollision digest call.source other.source

/-- A whole binary for the triple of the call, built from the inputs that it hashed. -/
def Fresh (call : Call) (binary : Artifact) : Prop :=
  binary.whole = true ∧ binary.triple = call.triple ∧ inputs binary.source = inputs call.source

end Cache

section Calls
variable {digest : List UInt8 → List UInt8} {calls : List Call} {call first : Call} {key : String}

theorem cacheAfter_concat (calls : List Call) (call : Call) :
    cacheAfter digest (calls ++ [call]) = (cachedHelper digest (cacheAfter digest calls) call).1 := by
  rw [cacheAfter, List.foldl_append, List.foldl_cons, List.foldl_nil, ← cacheAfter]

theorem firstCopy_concat (calls : List Call) (call : Call) (key : String) :
    firstCopy digest (calls ++ [call]) key = (firstCopy digest calls key).or
      (if copies call && keyOf digest call == some key then some call else none) := by
  rw [firstCopy, List.find?_append, ← firstCopy, List.find?_singleton]

theorem firstCopy_some (h : firstCopy digest calls key = some first) :
    first ∈ calls ∧ (buildHelper first).1.isSome ∧ keyOf digest first = some key := by
  have hcond := List.find?_some h
  simp only [copies, Bool.and_eq_true, beq_iff_eq] at hcond
  exact ⟨List.mem_of_find?_eq_some h, hcond.1.2, hcond.2⟩

/-- What stands under a key is what the first copy to it left. -/
theorem lookup_cacheAfter (calls : List Call) (key : String) :
    (cacheAfter digest calls).lookup key =
      (firstCopy digest calls key).bind fun first => (buildHelper first).1 := by
  induction calls using List.reverseRecOn generalizing key with
  | nil => rfl
  | append_singleton calls call ih =>
    rw [cacheAfter_concat, firstCopy_concat, cachedHelper]
    have hskip : (copies call && keyOf digest call == some key) = false →
        (cacheAfter digest calls).lookup key =
          ((firstCopy digest calls key).or
            (if copies call && keyOf digest call == some key then some call else none)).bind
              fun first => (buildHelper first).1 := by
      intro hno
      rw [hno, ih, if_neg Bool.false_ne_true, Option.or_none]
    cases hrevision : sourceRevision digest call.source with
    | none => exact hskip (by simp [keyOf, hrevision])
    | some revision =>
      have hkey : keyOf digest call = some ("helper-" ++ revision ++ "-" ++ call.triple) := by
        rw [keyOf, hrevision, Option.map_some]
      generalize hdir : "helper-" ++ revision ++ "-" ++ call.triple = dir at hkey
      dsimp only
      rw [hdir]
      cases hlook : (cacheAfter digest calls).lookup dir with
      | some binary =>
        by_cases hsame : key = dir
        · rw [ih] at hlook
          obtain ⟨first, hfirst, -⟩ := Option.bind_eq_some_iff.mp hlook
          rw [hsame, ih, hfirst, Option.some_or]
        · exact hskip (by simp [hkey, Ne.symm hsame])
      | none =>
        cases hmade : call.dirMade with
        | false => exact hskip (by simp [copies, hmade])
        | true =>
          cases hbuild : buildHelper call with
          | mk left built =>
            cases left with
            | none => exact hskip (by simp [copies, hbuild])
            | some binary =>
              simp only [Bool.not_true, Bool.false_eq_true, if_false]
              rw [List.lookup_append]
              by_cases hsame : key = dir
              · have hfirst : firstCopy digest calls dir = none := by
                  cases hfirst : firstCopy digest calls dir with
                  | none => rfl
                  | some first =>
                    obtain ⟨left, hleft⟩ := Option.isSome_iff_exists.mp (firstCopy_some hfirst).2.1
                    rw [ih, hfirst, Option.bind_some, hleft] at hlook
                    cases hlook
                simp [hsame, hlook, hfirst, copies, hmade, hbuild, hkey]
              · have hno : (copies call && keyOf digest call == some key) = false := by
                  simp [hkey, Ne.symm hsame]
                rw [← hskip hno]
                simp [List.lookup_cons, beq_eq_false_iff_ne.mpr hsame]

/-- The helper of a call is what the first copy to its key left there. -/
theorem cachedHelper_first {binary : Artifact} {revision : String}
    (h : (cachedHelper digest (cacheAfter digest calls) call).2 = some (binary, revision)) :
    sourceRevision digest call.source = some revision ∧ ∃ first key, keyOf digest call = some key ∧
      firstCopy digest (calls ++ [call]) key = some first ∧ (buildHelper first).1 = some binary := by
  have hlook : ∀ key, (cachedHelper digest (cacheAfter digest calls) call).1.lookup key = some binary →
      ∃ first, firstCopy digest (calls ++ [call]) key = some first ∧
        (buildHelper first).1 = some binary := by
    intro key hkey
    rw [← cacheAfter_concat, lookup_cacheAfter] at hkey
    exact Option.bind_eq_some_iff.mp hkey
  rw [cachedHelper] at h hlook
  cases hrevision : sourceRevision digest call.source with
  | none =>
    rw [hrevision] at h
    cases h
  | some found =>
    have hkey : keyOf digest call = some ("helper-" ++ found ++ "-" ++ call.triple) := by
      rw [keyOf, hrevision, Option.map_some]
    generalize hdir : "helper-" ++ found ++ "-" ++ call.triple = dir at hkey
    rw [hrevision] at h hlook
    dsimp only at h hlook
    rw [hdir] at h hlook
    cases hcached : (cacheAfter digest calls).lookup dir with
    | some cached =>
      rw [hcached] at h hlook
      obtain ⟨hcachedEq, hfound⟩ := Prod.mk.inj (Option.some.inj h)
      obtain ⟨first, hfirst, hleft⟩ := hlook dir (by rw [← hcachedEq]; exact hcached)
      exact ⟨by rw [hfound], first, dir, hkey, hfirst, hleft⟩
    | none =>
      rw [hcached] at h hlook
      cases hmade : call.dirMade with
      | false => simp [hmade] at h
      | true =>
        cases hbuild : buildHelper call with
        | mk left built =>
          cases left with
          | none => simp [hmade, hbuild] at h
          | some copied =>
            simp only [hmade, hbuild, Bool.not_true, Bool.false_eq_true, if_false] at h hlook
            obtain ⟨-, hpair⟩ := Option.ite_none_right_eq_some.mp h
            obtain ⟨hcopied, hfound⟩ := Prod.mk.inj (Option.some.inj hpair)
            obtain ⟨first, hfirst, hleft⟩ := hlook dir (by
              rw [List.lookup_append, hcached, hcopied]
              simp)
            exact ⟨by rw [hfound], first, dir, hkey, hfirst, hleft⟩

theorem length_sourceRevision (hdigest : ∀ bytes, 6 ≤ (digest bytes).length) {s : Source}
    {revision : String} (h : sourceRevision digest s = some revision) :
    revision.toList.length = 12 := by
  have hhex : ∀ bytes : List UInt8, (Bytes.hexChars bytes).length = 2 * bytes.length := by
    intro bytes
    induction bytes with
    | nil => rfl
    | cons b bytes ih =>
      have hcons : Bytes.hexChars (b :: bytes) = [Bytes.hexDigit (b.toNat / 16),
        Bytes.hexDigit (b.toNat % 16)] ++ Bytes.hexChars bytes := List.flatMap_cons
      rw [hcons, List.length_append, ih, List.length_cons, List.length_cons, List.length_cons,
        List.length_nil]
      omega
  obtain ⟨bytes, -, hbytes⟩ := Option.map_eq_some_iff.mp h
  rw [← hbytes, String.toList_ofList, hhex, List.length_take, Nat.min_eq_left (hdigest bytes)]

/-- The key is the revision and the triple. -/
theorem keyOf_inj (hdigest : ∀ bytes, 6 ≤ (digest bytes).length) {other : Call}
    (h : keyOf digest call = some key) (h' : keyOf digest other = some key) :
    sourceRevision digest call.source = sourceRevision digest other.source ∧
      call.triple = other.triple := by
  obtain ⟨revision, hrev, hkey⟩ := Option.map_eq_some_iff.mp h
  obtain ⟨revision', hrev', hkey'⟩ := Option.map_eq_some_iff.mp h'
  have hchars := congrArg String.toList (hkey.trans hkey'.symm)
  simp only [String.toList_append, List.append_assoc, List.append_cancel_left_eq] at hchars
  have hlen := (length_sourceRevision hdigest hrev).trans (length_sourceRevision hdigest hrev').symm
  obtain ⟨hrevs, htriples⟩ := List.append_inj hchars hlen
  rw [hrev, hrev', String.toList_inj.mp hrevs]
  exact ⟨rfl, String.toList_inj.mp (List.append_cancel_left htriples)⟩

end Calls

/-- A build of the checkout before its edit, and how its copy ends. -/
def builds (copy : CopyEnd) : Call := ⟨checkout "a", "x86_64", true, checkout "a", true, copy⟩

def revisionA : String :=
  String.ofList (Bytes.hexChars ((lastBytes (frames [(asciiBytes "main.rs", asciiBytes "a")])).take 6))

theorem sourceRevision_checkout : sourceRevision lastBytes (checkout "a") = some revisionA := by
  rw [sourceRevision, (plain_checkout "a" (by decide)).hashed, Option.map_some, revisionA]

/-- A later call is handed what the first one left. -/
theorem cachedHelper_twice {copy : CopyEnd} {left : Artifact}
    (h : (buildHelper (builds copy)).1 = some left) (later : CopyEnd) :
    (cachedHelper lastBytes (cacheAfter lastBytes [builds copy]) (builds later)).2 =
      some (left, revisionA) := by
  have hrevision : ∀ copy, sourceRevision lastBytes (builds copy).source = some revisionA :=
    fun _ => sourceRevision_checkout
  have hlook : (cacheAfter lastBytes [builds copy]).lookup
      ("helper-" ++ revisionA ++ "-" ++ (builds later).triple) = some left := by
    have hfirst : firstCopy lastBytes [builds copy]
        ("helper-" ++ revisionA ++ "-" ++ (builds later).triple) = some (builds copy) := by
      have hcopies : copies (builds copy) = true := by
        rw [copies, h]
        rfl
      have hkey : keyOf lastBytes (builds copy) =
          some ("helper-" ++ revisionA ++ "-" ++ (builds later).triple) := by
        rw [keyOf, hrevision]
        rfl
      rw [firstCopy, List.find?_singleton, hcopies, hkey, beq_self_eq_true]
      rfl
    rw [lookup_cacheAfter, hfirst, Option.bind_some, h]
  rw [cachedHelper, hrevision]
  dsimp only
  rw [hlook]

/-- A copy that stopped is handed out by every later call. -/
example : (cachedHelper lastBytes (cacheAfter lastBytes [builds .stopped]) (builds .finished)).2 =
    some (⟨checkout "a", "x86_64", false⟩, revisionA) := cachedHelper_twice rfl .finished

end Shellflow.HelperCache
