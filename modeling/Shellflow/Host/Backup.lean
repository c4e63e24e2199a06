import Shellflow.Host.Prune
import Shellflow.Lib.Assoc

/-! The backup verb of the target: copy or encrypt the inputs into a snapshot directory, check what
it holds, and apply the retention rule. -/
namespace Shellflow
open Process Process.Program

structure BackupArgs where
  paths : List String
  service : Option String
  dir : Option String
  keep : Option Nat
  sealing : Bool

namespace BackupArgs

def serviceName (args : BackupArgs) : String := args.service.getD "backup"

/-- The snapshot directory; without one the name carries the time. -/
def dirAt (args : BackupArgs) (now : Nat) : String :=
  args.dir.getD s!"/root/{args.serviceName}-backup-{now}"

end BackupArgs

def validateAbsolutePath (path : String) : Except HostError Unit :=
  if !Str.startsWith path "/" then .error (.usage s!"the path must be absolute (got `{path}`)")
  else if path.toList.contains (Char.ofNat 0) then .error (.usage "path must not contain NUL")
  else .ok ()

/-- A file: what reading it as root gives, and whether the caller's own `stat` finds it. -/
structure Source where
  bytes : Except HostError (List UInt8)
  visible : Bool

/-- The target as a backup finds it. A path is one of an entry of the snapshot directory, or it lies
elsewhere. -/
structure BackupDisk where
  isRoot : Bool
  entryOf : String → Option String
  elsewhere : String → Option Source
  named : ∀ path source bytes, elsewhere path = some source → source.bytes = .ok bytes →
    (fileName path).isSome
  encrypt : String → List UInt8 → List UInt8
  siblings : List String → Listing

/-- The operations of a run that fail. -/
structure BackupFaults where
  createDir : Option HostError
  write : String → Option HostError
  encrypt : String → Option HostError
  listing : Option HostError
  siblings : Option HostError
  shred : DirEntry → Option HostError

def BackupFaults.none : BackupFaults :=
  ⟨Option.none, fun _ => Option.none, fun _ => Option.none, Option.none, Option.none,
    fun _ => Option.none⟩

/-- The files in the snapshot directory, and what the retention rule gave up to removal. -/
structure BackupState where
  entries : List (String × List UInt8)
  removed : List DirEntry

/-- A unit file holds no secret. -/
def entryName (sealing : Bool) (name : String) : String :=
  if isUnitFile name || !sealing then name else name ++ ".enc"

/-- The check at the end: a unit file or an encrypted copy. -/
def isExpected (name : String) : Bool := isUnitFile name || Str.endsWith name ".enc"

def joinPath (dir name : String) : String :=
  if Str.endsWith dir "/" then dir ++ name else dir ++ "/" ++ name

section Verb
variable (d : BackupDisk) (faults : BackupFaults)

/-- What a path names now. The snapshot directory is root's. -/
def BackupDisk.source (path : String) (s : BackupState) : Option Source :=
  match d.entryOf path with
  | some entry => (s.entries.lookup entry).map fun bytes => ⟨.ok bytes, d.isRoot⟩
  | none => d.elsewhere path

def putEntry (fault : Option HostError) (name : String) (bytes : List UInt8) :
    Program BackupState HostError Unit :=
  match fault with
  | some error => fail error
  | none => act fun s => ((), { s with entries := Assoc.overwrite s.entries (name, bytes) })

def backupSource (sealing : Bool) (path name : String) (source : Source) :
    Program BackupState HostError Unit :=
  let target := entryName sealing name
  if sealing && !isUnitFile name then
    match source.bytes with
    | .error e => fail e
    | .ok bytes => putEntry (faults.encrypt target) target (d.encrypt name bytes)
  else
    match source.bytes with
    | .error e => fail (.internal s!"cannot back up `{path}`: {e.message}")
    | .ok bytes => putEntry (faults.write target) target bytes

/-- One round of the loop over the inputs. -/
def backupPath (sealing : Bool) (path : String) : Program BackupState HostError Unit :=
  match validateAbsolutePath path with
  | .error e => fail (.usage s!"the path is invalid (got `{path}`): {e.message}")
  | .ok () => do
    match ← look (d.source path) with
    | none => pure ()
    | some source =>
      if source.visible then
        match fileName path with
        | none => fail (.usage s!"`{path}` has no file name")
        | some name => backupSource d faults sealing path name source
      else pure ()

def checkEntries (dir : String) : Program BackupState HostError Unit :=
  match faults.listing with
  | some error => fail error
  | none => do
    let names ← look fun s => sortNames (Assoc.keys s.entries)
    let unexpected := names.filter fun name => !isExpected name
    if unexpected ≠ [] then
      let shown := Str.join ", " (unexpected.map (joinPath dir))
      fail (.failed (s!"the snapshot directory {dir} holds files that are neither unit files nor " ++
        s!"encrypted copies: {shown}"))
    else pure ()

def pruneHost : PruneHost where
  list path :=
    match faults.siblings with
    | some error => .error error
    | none => .ok (d.siblings path)
  shred := faults.shred

/-- A program on the list of removals alone. -/
def onRemoved {α : Type} (p : Program (List DirEntry) HostError α) :
    Program BackupState HostError α := fun s =>
  ((p s.removed).1, { s with removed := (p s.removed).2 })

def backup (args : BackupArgs) (now : Nat) : Program BackupState HostError Unit :=
  if args.paths = [] then fail (.usage "no paths to back up")
  else
    match validateUnit args.serviceName with
    | .error e => fail e
    | .ok () =>
      let dir := args.dirAt now
      match validateAbsolutePath dir with
      | .error e => fail (.usage s!"the snapshot directory is invalid (got `{dir}`): {e.message}")
      | .ok () =>
        match faults.createDir with
        | some error => fail error
        | none => do
          each (backupPath d faults args.sealing) args.paths
          checkEntries faults dir
          match args.keep with
          | none => pure ()
          | some keep => onRemoved (pruneSnapshots (pruneHost d faults) dir args.serviceName keep)

end Verb

/-- What the verb asks of its arguments. -/
structure Proper (args : BackupArgs) (now : Nat) : Prop where
  paths : args.paths ≠ []
  service : validateUnit args.serviceName = .ok ()
  dir : validateAbsolutePath (args.dirAt now) = .ok ()
  absolute : ∀ path ∈ args.paths, validateAbsolutePath path = .ok ()

section Outcome
variable (d : BackupDisk) (args : BackupArgs) (now : Nat) (entries : List (String × List UInt8))

def start : BackupState := ⟨entries, []⟩

def copyOf (sealing : Bool) (name : String) (bytes : List UInt8) : List UInt8 :=
  if sealing && !isUnitFile name then d.encrypt name bytes else bytes

/-- The entry that an input is copied to, and its content. -/
def copied (path : String) : Option (String × List UInt8) :=
  match d.source path (start entries), fileName path with
  | some ⟨.ok bytes, true⟩, some name => some (entryName args.sealing name, copyOf d args.sealing name bytes)
  | _, _ => none

/-- What the caller sees can be read. -/
def Readable (path : String) : Prop :=
  ∀ source, d.source path (start entries) = some source → source.visible = true →
    ∃ bytes, source.bytes = .ok bytes

/-- The arguments are right, the inputs can be read, and all names pass the check at the end. -/
structure Passes : Prop where
  proper : Proper args now
  readable : ∀ path ∈ args.paths, Readable d entries path
  present : ∀ name ∈ Assoc.keys entries, isExpected name = true
  written : ∀ path ∈ args.paths, ∀ entry, copied d args entries path = some entry →
    isExpected entry.1 = true

/-- What the retention rule removes at the end. -/
def prunedAt : List DirEntry :=
  match args.keep with
  | none => []
  | some keep =>
    surplusOf args.serviceName keep (d.siblings ((parentDir (args.dirAt now)).getD ["root"])).entries

end Outcome

section Run
variable {d : BackupDisk} {faults : BackupFaults} {args : BackupArgs} {now : Nat}
variable {entries : List (String × List UInt8)} {path : String}

theorem source_elsewhere (hout : d.entryOf path = none) (s : BackupState) :
    d.source path s = d.elsewhere path := by
  rw [BackupDisk.source, hout]

theorem ensures_putEntry {fault : Option HostError} (hfault : fault ≠ none → faults ≠ .none)
    (name : String) (bytes : List UInt8) (s : BackupState) :
    Ensures (putEntry fault name bytes) s
      ⟨fun _ s' => s' = { s with entries := Assoc.overwrite s.entries (name, bytes) },
        fun _ _ => faults ≠ .none, fun _ _ => False⟩ := by
  cases fault with
  | none => exact rfl
  | some error => exact hfault nofun

theorem copied_invisible {bytes : Except HostError (List UInt8)}
    (h : d.source path (start entries) = some ⟨bytes, false⟩) : copied d args entries path = none := by
  rw [copied, h]
  cases bytes <;> rfl

theorem ensures_backupSource (path : String) {sealing : Bool} {name : String} {source : Source}
    {bytes : List UInt8} (hbytes : source.bytes = .ok bytes) (s : BackupState) :
    Ensures (backupSource d faults sealing path name source) s
      ⟨fun _ s' => s' = { s with
          entries := Assoc.overwrite s.entries (entryName sealing name, copyOf d sealing name bytes) },
        fun _ _ => faults ≠ .none, fun _ _ => False⟩ := by
  rw [backupSource, hbytes]
  cases hcase : sealing && !isUnitFile name with
  | true =>
    rw [if_pos rfl, copyOf, if_pos hcase]
    refine ensures_putEntry ?_ _ _ s
    rintro hfault rfl
    exact hfault rfl
  | false =>
    rw [if_neg Bool.false_ne_true, copyOf, hcase, if_neg Bool.false_ne_true]
    refine ensures_putEntry ?_ _ _ s
    rintro hfault rfl
    exact hfault rfl

/-- One round copies its input, or leaves out one the caller does not see. -/
theorem ensures_backupPath (entries : List (String × List UInt8)) (hout : d.entryOf path = none)
    (s : BackupState) :
    Ensures (backupPath d faults args.sealing path) s
      ⟨fun _ s' => validateAbsolutePath path = .ok () ∧ Readable d entries path ∧
          s' = { s with entries := (copied d args entries path).toList.foldl Assoc.overwrite s.entries },
        fun _ _ => ¬ (validateAbsolutePath path = .ok () ∧ Readable d entries path) ∨
          faults ≠ .none,
        fun _ _ => False⟩ := by
  rw [backupPath]
  cases habsolute : validateAbsolutePath path with
  | error e => exact .inl fun h => by cases h.1
  | ok u =>
    rw [ensures_bind, ensures_look, source_elsewhere hout]
    cases hsource : d.elsewhere path with
    | none =>
      refine ⟨rfl, ?_, ?_⟩
      · intro source hsome
        rw [source_elsewhere hout, hsource] at hsome
        cases hsome
      · rw [copied, source_elsewhere hout, hsource]
        rfl
    | some source =>
      obtain ⟨bytes, visible⟩ := source
      have hfound : d.source path (start entries) = some ⟨bytes, visible⟩ := by
        rw [source_elsewhere hout, hsource]
      cases visible with
      | false =>
        refine ⟨rfl, ?_, ?_⟩
        · intro source hsome hvisible
          rw [hfound, Option.some_inj] at hsome
          rw [← hsome] at hvisible
          cases hvisible
        · rw [copied_invisible hfound]
          rfl
      | true =>
        cases bytes with
        | error e =>
          have hunreadable : ¬ Readable d entries path := fun h => by
            obtain ⟨bytes, hbytes⟩ := h _ hfound rfl
            cases hbytes
          cases hname : fileName path with
          | none => exact .inl fun h => hunreadable h.2
          | some name =>
            dsimp only
            rw [if_pos rfl, backupSource]
            split
            · exact .inl fun h => hunreadable h.2
            · exact .inl fun h => hunreadable h.2
        | ok bytes =>
          have hreadable : Readable d entries path := by
            intro source hsome _
            rw [hfound, Option.some_inj] at hsome
            exact ⟨bytes, by rw [← hsome]⟩
          obtain ⟨name, hname⟩ := Option.isSome_iff_exists.mp (d.named path _ bytes hsource rfl)
          have hcopied : copied d args entries path =
              some (entryName args.sealing name, copyOf d args.sealing name bytes) := by
            rw [copied, hfound, hname]
          have hbytes : (Source.mk (.ok bytes) true).bytes = .ok bytes := rfl
          rw [hname, hcopied]
          refine (ensures_backupSource path hbytes s).mono ?_ ?_ fun _ _ h => h
          · exact fun _ s' h => ⟨rfl, hreadable, h⟩
          · exact fun _ _ h => .inr h

/-- The loop copies the inputs in order. -/
theorem ensures_backupPaths (hout : ∀ path ∈ args.paths, d.entryOf path = none) :
    Ensures (each (backupPath d faults args.sealing) args.paths) (start entries)
      ⟨fun _ s => (∀ path ∈ args.paths, validateAbsolutePath path = .ok () ∧ Readable d entries path) ∧
          s = start ((args.paths.filterMap (copied d args entries)).foldl Assoc.overwrite entries),
        fun _ _ => (∃ path ∈ args.paths,
          ¬ (validateAbsolutePath path = .ok () ∧ Readable d entries path)) ∨ faults ≠ .none,
        fun _ _ => False⟩ := by
  refine ensures_each (fun done s => (∀ path ∈ done, validateAbsolutePath path = .ok () ∧
      Readable d entries path) ∧
    s = start ((done.filterMap (copied d args entries)).foldl Assoc.overwrite entries))
    ⟨nofun, rfl⟩ ?_ fun _ h => h
  rintro done path rest s hpaths ⟨hdone, rfl⟩
  have hmem : path ∈ args.paths := hpaths ▸ List.mem_append_right _ List.mem_cons_self
  refine (ensures_backupPath entries (hout path hmem) _).mono ?_ ?_ fun _ _ h => h
  · rintro - s' ⟨habsolute, hreadable, rfl⟩
    constructor
    · intro path' hmem'
      rcases List.mem_append.mp hmem' with hmem' | hmem'
      · exact hdone path' hmem'
      · rw [List.mem_singleton.mp hmem']
        exact ⟨habsolute, hreadable⟩
    · have hlast : [path].filterMap (copied d args entries) = (copied d args entries path).toList := by
        cases hcopied : copied d args entries path <;> simp [hcopied]
      rw [List.filterMap_append, List.foldl_append, hlast]
      rfl
  · rintro e s' (hbad | hfault)
    · exact .inl ⟨path, hmem, hbad⟩
    · exact .inr hfault

theorem ensures_checkEntries (dir : String) (s : BackupState) :
    Ensures (checkEntries faults dir) s
      ⟨fun _ s' => (∀ name ∈ Assoc.keys s.entries, isExpected name = true) ∧ s' = s,
        fun _ _ => (∃ name ∈ Assoc.keys s.entries, isExpected name = false) ∨ faults ≠ .none,
        fun _ _ => False⟩ := by
  rw [checkEntries]
  cases hfault : faults.listing with
  | some error =>
    refine .inr ?_
    rintro rfl
    cases hfault
  | none =>
    rw [ensures_bind, ensures_look]
    have hsorted : ∀ name, name ∈ sortNames (Assoc.keys s.entries) ↔ name ∈ Assoc.keys s.entries :=
      fun name => List.mem_mergeSort
    dsimp only
    split
    · next hbad =>
      refine .inl ?_
      obtain ⟨name, hname⟩ := List.exists_mem_of_ne_nil _ hbad
      obtain ⟨hmem, hunexpected⟩ := List.mem_filter.mp hname
      exact ⟨name, (hsorted name).mp hmem, by simpa using hunexpected⟩
    · next hgood =>
      refine ⟨fun name hname => ?_, rfl⟩
      by_contra hunexpected
      refine hgood (List.ne_nil_of_mem (List.mem_filter.mpr ⟨(hsorted name).mpr hname, ?_⟩))
      simpa using hunexpected

theorem ensures_onRemoved {α : Type} (p : Program (List DirEntry) HostError α) (s : BackupState)
    (post : Post BackupState HostError α) :
    Ensures (onRemoved p) s post ↔
      Ensures p s.removed ⟨fun a r => post.returned a { s with removed := r },
        fun e r => post.failed e { s with removed := r },
        fun code r => post.exited code { s with removed := r }⟩ := by
  unfold Ensures onRemoved
  cases p s.removed with
  | mk ended r =>
    cases ended with
    | returned a => exact Iff.rfl
    | failed e => exact Iff.rfl
    | exited code => exact Iff.rfl

/-- The entries after the inputs were copied. -/
def filled (d : BackupDisk) (args : BackupArgs) (entries : List (String × List UInt8)) :
    List (String × List UInt8) :=
  (args.paths.filterMap (copied d args entries)).foldl Assoc.overwrite entries

theorem checked_iff : (∀ name ∈ Assoc.keys (filled d args entries), isExpected name = true) ↔
    (∀ name ∈ Assoc.keys entries, isExpected name = true) ∧
      ∀ path ∈ args.paths, ∀ entry, copied d args entries path = some entry →
        isExpected entry.1 = true := by
  constructor
  · intro h
    constructor
    · exact fun name hname => h name (Assoc.mem_keys_foldl_overwrite.mpr (.inr hname))
    · intro path hpath entry hentry
      refine h entry.1 (Assoc.mem_keys_foldl_overwrite.mpr (.inl ?_))
      exact Assoc.mem_keys_of_mem (List.mem_filterMap.mpr ⟨path, hpath, hentry⟩)
  · rintro ⟨hpresent, hwritten⟩ name hname
    cases Assoc.mem_keys_foldl_overwrite.mp hname with
    | inr hold => exact hpresent name hold
    | inl hnew =>
      obtain ⟨entry, hmem, rfl⟩ := List.mem_map.mp hnew
      obtain ⟨path, hpath, hentry⟩ := List.mem_filterMap.mp hmem
      exact hwritten path hpath entry hentry

theorem ensures_retention (copies : List (String × List UInt8)) :
    Ensures (match args.keep with
      | none => pure ()
      | some keep => onRemoved (pruneSnapshots (pruneHost d faults) (args.dirAt now) args.serviceName keep))
      (start copies)
      ⟨fun _ s => s = ⟨copies, prunedAt d args now⟩, fun _ _ => faults ≠ .none, fun _ _ => False⟩ := by
  rw [prunedAt]
  cases args.keep with
  | none => exact rfl
  | some keep =>
    rw [ensures_onRemoved]
    cases hsiblings : faults.siblings with
    | some error =>
      have hlist : (pruneHost d faults).list ((parentDir (args.dirAt now)).getD ["root"]) =
          .error error := by
        rw [pruneHost, hsiblings]
      rw [pruneSnapshots, hlist]
      rintro rfl
      cases hsiblings
    | none =>
      have hlist : (pruneHost d faults).list ((parentDir (args.dirAt now)).getD ["root"]) =
          .ok (d.siblings ((parentDir (args.dirAt now)).getD ["root"])) := by
        rw [pruneHost, hsiblings]
      refine (ensures_pruneSnapshots _ _ _ _ hlist).mono ?_ ?_ fun _ _ h => h
      · rintro - removed rfl
        rfl
      · rintro - removed ⟨-, e, hshred⟩ rfl
        exact hshred rfl

/-- A run that nothing interferes with succeeds exactly when everything passes. -/
theorem ensures_backup (hout : ∀ path ∈ args.paths, d.entryOf path = none) :
    Ensures (backup d faults args now) (start entries)
      ⟨fun _ s => Passes d args now entries ∧ s = ⟨filled d args entries, prunedAt d args now⟩,
        fun _ _ => ¬ Passes d args now entries ∨ faults ≠ .none,
        fun _ _ => False⟩ := by
  rw [backup]
  by_cases hpaths : args.paths = []
  · rw [if_pos hpaths]
    exact .inl fun h => h.proper.paths hpaths
  rw [if_neg hpaths]
  cases hservice : validateUnit args.serviceName with
  | error e =>
    refine .inl fun h => ?_
    have hproper := h.proper.service
    rw [hservice] at hproper
    cases hproper
  | ok u =>
    dsimp only
    cases hdir : validateAbsolutePath (args.dirAt now) with
    | error e =>
      refine .inl fun h => ?_
      have hproper := h.proper.dir
      rw [hdir] at hproper
      cases hproper
    | ok u =>
      dsimp only
      cases hcreate : faults.createDir with
      | some error =>
        refine .inr ?_
        rintro rfl
        cases hcreate
      | none =>
        dsimp only
        rw [ensures_bind]
        refine (ensures_backupPaths hout).mono ?_ ?_ fun _ _ h => h
        · rintro - s ⟨hread, rfl⟩
          dsimp only
          rw [ensures_bind]
          refine (ensures_checkEntries _ _).mono ?_ ?_ fun _ _ h => h
          · rintro - s ⟨hchecked, rfl⟩
            have hpasses : Passes d args now entries :=
              ⟨⟨hpaths, hservice, hdir, fun path hmem => (hread path hmem).1⟩,
                fun path hmem => (hread path hmem).2, (checked_iff.mp hchecked).1,
                (checked_iff.mp hchecked).2⟩
            exact (ensures_retention _).mono (fun _ s h => ⟨hpasses, h⟩) (fun _ _ h => .inr h)
              fun _ _ h => h
          · rintro e s (⟨name, hmem, hbad⟩ | hfault)
            · refine .inl fun h => ?_
              rw [checked_iff.mpr ⟨h.present, h.written⟩ name hmem] at hbad
              cases hbad
            · exact .inr hfault
        · rintro - s (⟨path, hmem, hbad⟩ | hfault)
          · exact .inl fun h => hbad ⟨h.proper.absolute path hmem, h.readable path hmem⟩
          · exact .inr hfault

theorem backup_returned {s : BackupState} (hout : ∀ path ∈ args.paths, d.entryOf path = none)
    (h : backup d faults args now (start entries) = (.returned (), s)) :
    Passes d args now entries ∧ s = ⟨filled d args entries, prunedAt d args now⟩ := by
  have hrun : Ensures (backup d faults args now) (start entries) _ := ensures_backup hout
  rw [Ensures, h] at hrun
  exact hrun

theorem backup_returns (hout : ∀ path ∈ args.paths, d.entryOf path = none)
    (hpasses : Passes d args now entries) : backup d .none args now (start entries) =
      (.returned (), ⟨filled d args entries, prunedAt d args now⟩) := by
  have hrun : Ensures (backup d .none args now) (start entries) _ := ensures_backup hout
  rw [Ensures] at hrun
  cases hend : backup d .none args now (start entries) with
  | mk ended s =>
    rw [hend] at hrun
    cases ended with
    | returned u => rw [hrun.2]
    | failed e => exact (hrun.elim (fun h => h hpasses) fun h => h rfl).elim
    | exited code => exact hrun.elim

end Run

section Delivery
variable (d : BackupDisk) (args : BackupArgs) (now : Nat) (entries : List (String × List UInt8))

/-- The snapshot directory after a run; nothing is left of one that the retention rule removed. -/
def snapshotAfter (dir : String) (s : BackupState) : List (String × List UInt8) :=
  if ∃ e ∈ s.removed, ∃ name, fileName dir = some name ∧ e.name = .text name then [] else s.entries

/-- The entry of an input holds what the input holds. -/
def HeldIn (after : List (String × List UInt8)) (path : String) (source : Source) : Prop :=
  ∃ name bytes, fileName path = some name ∧ source.bytes = .ok bytes ∧
    after.lookup (entryName args.sealing name) = some (copyOf d args.sealing name bytes)

/-- What a backup that succeeds has to leave: for each input that exists an entry of its own, with
the content of the input. -/
structure AllSaved (after : List (String × List UInt8)) : Prop where
  held : ∀ path ∈ args.paths, ∀ source, d.source path (start entries) = some source →
    HeldIn d args after path source
  distinct : ∀ p ∈ args.paths, ∀ q ∈ args.paths, p ≠ q → (d.source p (start entries)).isSome →
    (d.source q (start entries)).isSome →
    (fileName p).map (entryName args.sealing) ≠ (fileName q).map (entryName args.sealing)

/-- Every input is a file that can be read. -/
def AllReadable : Prop :=
  ∀ path ∈ args.paths, ∃ source bytes, d.source path (start entries) = some source ∧
    source.bytes = .ok bytes

/-- A backup that succeeds has saved every input, and an unsealed backup of readable files
succeeds when nothing fails on the target. -/
def LosesNothing : Prop :=
  (∀ faults s, backup d faults args now (start entries) = (.returned (), s) →
    AllSaved d args entries (snapshotAfter (args.dirAt now) s)) ∧
  (args.sealing = false → Proper args now → AllReadable d args entries →
    ∃ s, backup d .none args now (start entries) = (.returned (), s))

/-- Different inputs that exist have different file names. -/
def NamesApart : Prop :=
  ∀ p ∈ args.paths, ∀ q ∈ args.paths, p ≠ q → (d.source p (start entries)).isSome →
    (d.source q (start entries)).isSome → fileName p ≠ fileName q

/-- The names are apart, what the caller does not see is in its entry already, and the retention
rule keeps the snapshot. -/
structure KeepsApart : Prop where
  names : NamesApart d args entries
  seen : ∀ path ∈ args.paths, ∀ source, d.source path (start entries) = some source →
    source.visible = true ∨ HeldIn d args entries path source
  kept : (∃ path ∈ args.paths, (d.source path (start entries)).isSome) →
    ∀ keep, args.keep = some keep → OwnKept args.serviceName (fileName (args.dirAt now)) keep
      (d.siblings ((parentDir (args.dirAt now)).getD ["root"])).entries

/-- All names pass the check at the end: those that are there, and those of the copies. -/
def NamesExpected : Prop :=
  (∀ name ∈ Assoc.keys entries, isExpected name = true) ∧
    ∀ path ∈ args.paths, ∀ entry, copied d args entries path = some entry →
      isExpected entry.1 = true

def BackupSafe : Prop :=
  (Passes d args now entries → KeepsApart d args now entries) ∧
    (args.sealing = false → Proper args now → AllReadable d args entries →
      NamesExpected d args entries)

end Delivery

section Theorems
variable {d : BackupDisk} {args : BackupArgs} {now : Nat} {entries : List (String × List UInt8)}

theorem getLast?_of_endsWith {s suffix : String} (h : Str.endsWith s suffix = true)
    (hne : suffix.toList ≠ []) : s.toList.getLast? = suffix.toList.getLast? := by
  rw [Str.endsWith, List.isSuffixOf_iff_suffix] at h
  obtain ⟨front, hfront⟩ := h
  rw [← hfront, List.getLast?_append_of_ne_nil _ hne]

/-- The name of an encrypted copy is not one of a unit file. -/
theorem not_isUnitFile_enc (name : String) : isUnitFile (name ++ ".enc") = false := by
  have hlast : (name ++ ".enc").toList.getLast? = some 'c' := by simp
  rw [Bool.eq_false_iff]
  intro h
  obtain ⟨suffix, hmem, hsuffix⟩ := List.any_eq_true.mp h
  have hall : ∀ suffix ∈ [".service", ".socket", ".target", ".device", ".mount", ".automount",
      ".swap", ".path", ".timer", ".slice", ".scope", ".container", ".volume", ".network", ".kube",
      ".image", ".build", ".pod"], suffix.toList ≠ [] ∧ suffix.toList.getLast? ≠ some 'c' := by
    decide
  exact (hall suffix hmem).2 ((getLast?_of_endsWith hsuffix (hall suffix hmem).1).symm.trans hlast)

theorem entryName_injective (sealing : Bool) : Function.Injective (entryName sealing) := by
  intro a b h
  rw [entryName, entryName] at h
  cases sealing with
  | false => simpa using h
  | true =>
    cases ha : isUnitFile a with
    | true =>
      cases hb : isUnitFile b with
      | true => simpa [ha, hb] using h
      | false =>
        have heq : a = b ++ ".enc" := by simpa [ha, hb] using h
        rw [heq, not_isUnitFile_enc] at ha
        cases ha
    | false =>
      cases hb : isUnitFile b with
      | true =>
        have heq : a ++ ".enc" = b := by simpa [ha, hb] using h
        rw [← heq, not_isUnitFile_enc] at hb
        cases hb
      | false =>
        have heq : a ++ ".enc" = b ++ ".enc" := by simpa [ha, hb] using h
        have hchars := congrArg String.toList heq
        rw [String.toList_append, String.toList_append, List.append_cancel_right_eq] at hchars
        exact String.toList_inj.mp hchars

theorem copied_eq_some {path : String} {entry : String × List UInt8} :
    copied d args entries path = some entry ↔ ∃ bytes name,
      d.source path (start entries) = some ⟨.ok bytes, true⟩ ∧ fileName path = some name ∧
        entry = (entryName args.sealing name, copyOf d args.sealing name bytes) := by
  rw [copied]
  split
  · next bytes name hsource hname =>
    constructor
    · intro h
      exact ⟨bytes, name, hsource, hname, (Option.some.inj h).symm⟩
    · rintro ⟨bytes', name', hsource', hname', rfl⟩
      rw [hsource] at hsource'
      rw [hname] at hname'
      cases hsource'
      cases hname'
      rfl
  · next hother =>
    constructor
    · nofun
    · rintro ⟨bytes, name, hsource, hname, -⟩
      exact (hother bytes name hsource hname).elim

/-- No other input is copied to the entry of an input. -/
theorem copied_unique {path other name : String} {entry : String × List UInt8}
    (h : NamesApart d args entries) (hpath : path ∈ args.paths) (hother : other ∈ args.paths)
    (hsome : (d.source path (start entries)).isSome) (hname : fileName path = some name)
    (hentry : copied d args entries other = some entry)
    (hkey : entry.1 = entryName args.sealing name) : path = other := by
  by_contra hne
  obtain ⟨bytes, name', hsource, hname', rfl⟩ := copied_eq_some.mp hentry
  refine h path hpath other hother hne hsome (by rw [hsource]; rfl) ?_
  rw [hname, hname', entryName_injective args.sealing hkey]

/-- What an input that the caller sees leaves in the snapshot. -/
theorem filled_seen {path name : String} {bytes : List UInt8} (h : NamesApart d args entries)
    (hpath : path ∈ args.paths) (hsource : d.source path (start entries) = some ⟨.ok bytes, true⟩)
    (hname : fileName path = some name) : (filled d args entries).lookup (entryName args.sealing name) =
      some (copyOf d args.sealing name bytes) := by
  have hcopied : copied d args entries path =
      some (entryName args.sealing name, copyOf d args.sealing name bytes) :=
    copied_eq_some.mpr ⟨bytes, name, hsource, hname, rfl⟩
  have hmem := List.mem_filterMap.mpr ⟨path, hpath, hcopied⟩
  rw [filled, Assoc.lookup_foldl_overwrite, Assoc.last?_unique hmem, Option.some_or]
  intro v hv
  obtain ⟨other, hother, hentry⟩ := List.mem_filterMap.mp hv
  obtain rfl := copied_unique h hpath hother (by rw [hsource]; rfl) hname hentry rfl
  rw [hcopied] at hentry
  exact (Prod.mk.inj (Option.some.inj hentry)).2.symm

/-- The entry of an input that the caller does not see stays what it is. -/
theorem filled_unseen {path name : String} {source : Source} (h : NamesApart d args entries)
    (hpath : path ∈ args.paths) (hsource : d.source path (start entries) = some source)
    (hname : fileName path = some name) (hunseen : source.visible = false) :
    (filled d args entries).lookup (entryName args.sealing name) =
      entries.lookup (entryName args.sealing name) := by
  rw [filled, Assoc.lookup_foldl_overwrite, Assoc.last?_eq_none.mpr, Option.none_or]
  intro hmem
  obtain ⟨entry, hentry, hkey⟩ := List.mem_map.mp hmem
  obtain ⟨other, hother, hcopied⟩ := List.mem_filterMap.mp hentry
  obtain rfl := copied_unique h hpath hother (by rw [hsource]; rfl) hname hcopied hkey
  obtain ⟨bytes, -, hvisible, -⟩ := copied_eq_some.mp hcopied
  rw [hsource, Option.some_inj] at hvisible
  rw [hvisible] at hunseen
  cases hunseen

/-- The snapshot of a run is there afterwards exactly when the retention rule keeps it. -/
theorem prunedAt_own : (∃ e ∈ prunedAt d args now, ∃ name,
      fileName (args.dirAt now) = some name ∧ e.name = .text name) ↔
    ¬ ∀ keep, args.keep = some keep → OwnKept args.serviceName (fileName (args.dirAt now)) keep
      (d.siblings ((parentDir (args.dirAt now)).getD ["root"])).entries := by
  rw [prunedAt]
  cases args.keep with
  | none => simp
  | some keep =>
    have hkept : OwnKept args.serviceName _ keep _ ↔ _ :=
      ownKept_iff (d.siblings ((parentDir (args.dirAt now)).getD ["root"])) (fileName (args.dirAt now))
    simp only [Option.some_inj, forall_eq', hkept]
    push Not
    rfl

end Theorems

/-- A target with two configuration files of one name and a unit file. -/
def exampleDisk : BackupDisk where
  isRoot := true
  entryOf _ := none
  elsewhere path :=
    if path = "/etc/app/config.toml" then some ⟨.ok [97], true⟩
    else if path = "/etc/db/config.toml" then some ⟨.ok [100], true⟩
    else if path = "/etc/systemd/system/app.service" then some ⟨.ok [91], true⟩
    else none
  named := by
    intro path source bytes h _
    split at h
    · next hpath => subst hpath; decide +kernel
    · split at h
      · next hpath => subst hpath; decide +kernel
      · split at h
        · next hpath => subst hpath; decide +kernel
        · cases h
  encrypt _ bytes := 0 :: bytes
  siblings _ := ⟨[], List.nodup_nil⟩

def sealedBackup (paths : List String) : BackupArgs := ⟨paths, some "app", some "/root/app-1", none, true⟩

theorem sealedBackup_proper {paths : List String} (hne : paths ≠ [])
    (habsolute : ∀ path ∈ paths, validateAbsolutePath path = .ok ()) : Proper (sealedBackup paths) 0 where
  paths := hne
  service := by
    have hunit : validateUnit "app" = .ok () := by decide +kernel
    exact hunit
  dir := by
    have hdir : validateAbsolutePath "/root/app-1" = .ok () := by decide +kernel
    exact hdir
  absolute := habsolute

end Shellflow
