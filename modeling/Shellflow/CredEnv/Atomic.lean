import Shellflow.CredEnv.Install
import Shellflow.Lib.Assoc
import Shellflow.Lib.BufRead

/-! The replacement of the credential store on a disk whose operations can fail: the live directory
holds the old credentials or all of the new ones. -/
namespace Shellflow
open Process Process.Program

abbrev StoreDir := List (String × List UInt8)

/-- The directories of a machine, and the number of operations so far. -/
structure StoreWorld where
  dirs : List String → Option StoreDir
  clock : Nat

namespace StoreWorld

def tick (w : StoreWorld) : StoreWorld := { w with clock := w.clock + 1 }

def setDir (w : StoreWorld) (path : List String) (dir : Option StoreDir) : StoreWorld :=
  ⟨fun p => if p = path then dir else w.dirs p, w.clock + 1⟩

@[simp] theorem dirs_tick (w : StoreWorld) : w.tick.dirs = w.dirs := rfl

@[simp] theorem dirs_setDir_self (w : StoreWorld) (path : List String) (dir : Option StoreDir) :
    (w.setDir path dir).dirs path = dir := if_pos rfl

theorem dirs_setDir_ne (w : StoreWorld) {p path : List String} (h : p ≠ path)
    (dir : Option StoreDir) : (w.setDir path dir).dirs p = w.dirs p := if_neg h

end StoreWorld

/-- How the operations end that are started at each time. An encryption that fails leaves anything
in its directory. -/
structure StoreFaults where
  sudoEnd : Nat → Option Int
  encryptEnd : Nat → EncryptEnd
  debris : Nat → StoreDir
  cipher : Nat → String → String → List UInt8
  exchanges : Nat → Bool
  renameError : Nat → String → String → Option String
  writes : Nat → Bool

/-- The text of a file that is UTF-8. -/
def textOf? (bytes : List UInt8) : Option String :=
  if (BufRead.decode bytes).2 then some (String.ofList (BufRead.decode bytes).1) else none

def storeOf (dir : Option StoreDir) : CredentialStore where
  recorded := (dir.getD []).lookup fingerprintFile |>.bind textOf?
  entries := Assoc.keys (dir.getD [])

section StoreMachine
variable (sha256 : List UInt8 → List UInt8) (hostKey : Option (List UInt8)) (f : StoreFaults)

def sudoOn (args : List String) (w : StoreWorld) : Option Int × StoreWorld :=
  match args with
  | ["install", "-d", "-m", "0700", path] =>
    if f.sudoEnd w.clock = some 0 then
      (some 0, w.setDir (pathParts path) (some ((w.dirs (pathParts path)).getD [])))
    else (f.sudoEnd w.clock, w.tick)
  | _ => (f.sudoEnd w.clock, w.tick)

def encryptOn (key path value : String) (w : StoreWorld) : EncryptEnd × StoreWorld :=
  let dir := (pathParts path).dropLast
  let name := (pathParts path).getLast?.getD ""
  match f.encryptEnd w.clock with
  | .status 0 => (.status 0, w.setDir dir
      (some (Assoc.overwrite ((w.dirs dir).getD []) (name, f.cipher w.clock key value))))
  | ended => (ended, w.setDir dir (some (f.debris w.clock)))

def exchangeOn (a b : String) (w : StoreWorld) : Bool × StoreWorld :=
  match f.exchanges w.clock, w.dirs (pathParts a), w.dirs (pathParts b) with
  | true, some dirA, some dirB =>
    (true, (w.setDir (pathParts a) (some dirB)).setDir (pathParts b) (some dirA))
  | _, _, _ => (false, w.tick)

/-- A directory is renamed to a path where nothing is, or an empty directory. -/
def renameOn (a b : String) (w : StoreWorld) : Option String × StoreWorld :=
  match f.renameError w.clock a b, w.dirs (pathParts a) with
  | some error, _ => (some error, w.tick)
  | none, none => (some "No such file or directory", w.tick)
  | none, some dir =>
    if (w.dirs (pathParts b)).any fun target => target ≠ [] then (some "Directory not empty", w.tick)
    else (none, (w.setDir (pathParts a) none).setDir (pathParts b) (some dir))

def writeOn (path text : String) (w : StoreWorld) : StoreWorld :=
  let dir := (pathParts path).dropLast
  if f.writes w.clock then
    w.setDir dir ((w.dirs dir).map fun files =>
      Assoc.overwrite files ((pathParts path).getLast?.getD "", Bytes.encode text.toList))
  else w.tick

def storeMachine : Machine StoreWorld where
  sha256 := sha256
  currentExe := none
  hostKey _ := hostKey
  store path w := storeOf (w.dirs (pathParts path))
  pathExists path w := (w.dirs (pathParts path)).isSome
  isDir path w := (w.dirs (pathParts path)).isSome
  sudoTestDir path w := (w.dirs (pathParts path)).isSome
  listDir path w :=
    match w.dirs (pathParts path) with
    | some dir => .ok (Assoc.keys dir)
    | none => .error "No such file or directory"
  sudoList path w :=
    match w.dirs (pathParts path) with
    | some dir => .names (Assoc.keys dir)
    | none => .failed "No such file or directory"
  unitTexts _ := []
  probe _ w := (.writable, w.tick)
  sudoStatus := sudoOn f
  encrypt := encryptOn f
  removeTree path w := w.setDir (pathParts path) none
  exchange := exchangeOn f
  rename := renameOn f
  writeSecret := writeOn f

end StoreMachine

/-- A sealed credential of a directory; the fingerprint is none. -/
def sealedFile (dir : Option StoreDir) (name : String) : Option (List UInt8) :=
  if name = fingerprintFile then none else (dir.getD []).lookup name

/-- Exactly the keys are there, each with its value encrypted in this run. -/
def CompleteSet (f : StoreFaults) (ctx : ProcessContext) (keys : List String)
    (dir : Option StoreDir) : Prop :=
  dir.isSome ∧ ∀ name, name ≠ fingerprintFile →
    if name ∈ keys then
      ∃ n value, ctx.var name = some value ∧ sealedFile dir name = some (f.cipher n name value)
    else sealedFile dir name = none

/-- The live directory after a run: it is there if it was, and holds the old credentials or all of
the new ones. -/
def SealedAtomically (f : StoreFaults) (ctx : ProcessContext) (keys : List String)
    (old live : Option StoreDir) : Prop :=
  (old.isSome → live.isSome) ∧ (sealedFile live = sealedFile old ∨ CompleteSet f ctx keys live)

section Paths
variable {store : String}

theorem isPart_of_isValidVarName {key : String} (h : isValidVarName key = true) : IsPart key := by
  have hchars : ∀ c ∈ key.toList, c ≠ '/' ∧ c ≠ '.' := by
    intro c hc
    have hvar := mem_of_isValidVarName h hc
    constructor
    · rintro rfl
      revert hvar
      decide
    · rintro rfl
      revert hvar
      decide
  refine ⟨?_, ?_, fun hc => (hchars '/' hc).1 rfl⟩
  · rintro rfl
    revert h
    decide +kernel
  · rintro rfl
    exact (hchars '.' (by decide)).2 rfl

theorem isPart_append {name suffix : String} (h : '/' ∉ name.toList) (hlen : 2 ≤ suffix.length)
    (hslash : '/' ∉ suffix.toList) : IsPart (name ++ suffix) := by
  have htotal : 2 ≤ (name ++ suffix).length := by
    rw [String.length_append]
    omega
  refine ⟨?_, ?_, ?_⟩
  · intro he
    rw [he] at htotal
    exact absurd htotal (by decide)
  · intro he
    rw [he] at htotal
    exact absurd htotal (by decide)
  · rw [String.toList_append, List.mem_append]
    exact fun hc => hc.elim h hslash

theorem isPart_of_fileName {path name : String} (h : fileName path = some name) : IsPart name := by
  have hmem : name ∈ pathParts path := by
    rw [pathParts_of_fileName h]
    exact List.mem_append_right _ List.mem_cons_self
  exact isPart_of_mem hmem

theorem slash_notMem_fileStem {name : String} (h : '/' ∉ name.toList) :
    '/' ∉ (fileStem name).toList := by
  rw [fileStem]
  split
  · next before after hsplit =>
    split
    · exact h
    · rw [Str.rsplitOnceChar, Option.map_eq_some_iff] at hsplit
      obtain ⟨⟨tail, front⟩, hfound, heq⟩ := hsplit
      obtain ⟨rfl, -⟩ := Prod.mk.inj heq
      have hwhole := congrArg List.reverse (Str.splitOnceChars_eq hfound)
      rw [List.reverse_reverse] at hwhole
      rw [String.toList_ofList]
      intro hc
      refine h ?_
      rw [hwhole, List.reverse_append]
      exact List.mem_append_left _ hc
  · exact h

theorem pathParts_withFileName {path name part : String} (h : fileName path = some name)
    (hpart : IsPart part) : pathParts (withFileName path part) = (pathParts path).dropLast ++ [part] := by
  rw [withFileName, if_pos (by rw [h]; rfl), pathParts_withParts]
  intro p hp
  rcases List.mem_append.mp hp with hp | hp
  · exact isPart_of_mem (List.mem_of_mem_dropLast hp)
  · rw [List.mem_singleton.mp hp]
    exact hpart

theorem pathParts_staging {name : String} (h : fileName store = some name) :
    pathParts (stagingPath store) = (pathParts store).dropLast ++ [name ++ ".new"] := by
  rw [stagingPath, h, Option.getD_some]
  exact pathParts_withFileName h (isPart_append (isPart_of_fileName h).2.2 (by decide) (by decide))

theorem pathParts_staging_none (h : fileName store = none) :
    pathParts (stagingPath store) = pathParts store ++ ["store.new"] := by
  have hname : "store" ++ ".new" = "store.new" := by decide
  rw [stagingPath, h, Option.getD_none, hname, withFileName, h, if_neg (by decide),
    pathParts_withParts]
  intro p hp
  rcases List.mem_append.mp hp with hp | hp
  · exact isPart_of_mem hp
  · rw [List.mem_singleton.mp hp]
    exact ⟨by decide, by decide, by decide⟩

theorem pathParts_retired {name : String} (h : fileName store = some name) :
    pathParts (retiredPath store) = (pathParts store).dropLast ++ [fileStem name ++ ".old"] := by
  have hold : fileStem name ++ "." ++ "old" = fileStem name ++ ".old" := by
    rw [String.append_assoc]
    rfl
  rw [retiredPath, withExtension, h]
  dsimp only
  rw [hold]
  exact pathParts_withFileName h (isPart_append
    (slash_notMem_fileStem (isPart_of_fileName h).2.2) (by decide) (by decide))

theorem pathParts_retired_none (h : fileName store = none) :
    pathParts (retiredPath store) = pathParts store := by
  rw [retiredPath, withExtension, h]

/-- The staging directory is another one than the store. -/
theorem staging_ne_store (store : String) : pathParts (stagingPath store) ≠ pathParts store := by
  intro heq
  cases hname : fileName store with
  | none =>
    rw [pathParts_staging_none hname] at heq
    have hlen := congrArg List.length heq
    simp at hlen
  | some name =>
    rw [pathParts_staging hname] at heq
    nth_rewrite 2 [pathParts_of_fileName hname] at heq
    rw [List.append_cancel_left_eq] at heq
    have hlen := congrArg String.length (List.cons.inj heq).1
    simp at hlen

theorem staging_ne_retired (store : String) :
    pathParts (stagingPath store) ≠ pathParts (retiredPath store) := by
  cases hname : fileName store with
  | none =>
    rw [pathParts_retired_none hname]
    exact staging_ne_store store
  | some name =>
    rw [pathParts_staging hname, pathParts_retired hname]
    intro heq
    rw [List.append_cancel_left_eq] at heq
    have hlast := congrArg (fun s => s.toList.getLast?) (List.cons.inj heq).1
    simp at hlast

/-- The store and the directory it is renamed to are one when the path ends in no name, or in one
with the extension `old`. -/
theorem retired_eq_store_iff : pathParts (retiredPath store) = pathParts store ↔
    ∀ name, fileName store = some name → fileStem name ++ ".old" = name := by
  cases hname : fileName store with
  | none => simp [pathParts_retired_none hname]
  | some name =>
    rw [pathParts_retired hname]
    nth_rewrite 2 [pathParts_of_fileName hname]
    rw [List.append_cancel_left_eq]
    simp

end Paths

section Steps
variable {sha256 : List UInt8 → List UInt8} {hostKey : Option (List UInt8)} {f : StoreFaults}
variable {ctx : ProcessContext} {keys : List String} {store staging key : String}

/-- No operation but the ones on directories fails. -/
def StoreFaults.Seals (f : StoreFaults) : Prop :=
  (∀ n, f.sudoEnd n = some 0) ∧ ∀ n, f.encryptEnd n = .status 0

/-- The environment has a value for a credential. -/
def Given (ctx : ProcessContext) (key : String) : Prop :=
  ∃ value, ctx.var key = some value ∧ value ≠ ""

theorem ensures_runSudo (sha256 : List UInt8 → List UInt8) (hostKey : Option (List UInt8))
    (f : StoreFaults) (args : List String) (s : Run StoreWorld) :
    Ensures (runSudo (storeMachine sha256 hostKey f) args) s
      ⟨fun _ s' => (sudoOn f args s.world).1 = some 0 ∧ s'.world = (sudoOn f args s.world).2,
        fun _ s' => (sudoOn f args s.world).1 ≠ some 0 ∧ s'.world = (sudoOn f args s.world).2,
        fun _ _ => False⟩ := by
  have hstatus : (storeMachine sha256 hostKey f).sudoStatus args s.world = sudoOn f args s.world := rfl
  rw [runSudo, ensures_bind, ensures_operate, hstatus]
  cases (sudoOn f args s.world).1 with
  | none => exact ⟨nofun, rfl⟩
  | some code =>
    dsimp only
    by_cases hcode : code = 0
    · rw [if_pos hcode, hcode]
      exact ⟨rfl, rfl⟩
    · rw [if_neg hcode]
      exact ⟨fun h => hcode (Option.some.inj h), rfl⟩

theorem sudoOn_install (path : String) (w : StoreWorld) :
    sudoOn f ["install", "-d", "-m", "0700", path] w =
      if f.sudoEnd w.clock = some 0 then
        (some 0, w.setDir (pathParts path) (some ((w.dirs (pathParts path)).getD [])))
      else (f.sudoEnd w.clock, w.tick) := rfl

/-- A directory that is made is there afterwards; the others stay. -/
theorem ensures_makeDir (path : String) (s : Run StoreWorld) :
    Ensures (runSudo (storeMachine sha256 hostKey f) ["install", "-d", "-m", "0700", path]) s
      ⟨fun _ s' => (∀ p, p ≠ pathParts path → s'.world.dirs p = s.world.dirs p) ∧
          s'.world.dirs (pathParts path) = some ((s.world.dirs (pathParts path)).getD []),
        fun _ s' => s'.world.dirs = s.world.dirs ∧ ¬ f.Seals,
        fun _ _ => False⟩ := by
  have hrun := ensures_runSudo sha256 hostKey f ["install", "-d", "-m", "0700", path] s
  rw [sudoOn_install] at hrun
  by_cases hok : f.sudoEnd s.world.clock = some 0
  · rw [if_pos hok] at hrun
    refine hrun.mono ?_ (fun _ _ h => absurd rfl h.1) fun _ _ h => h
    rintro - ⟨w, log⟩ ⟨-, rfl⟩
    exact ⟨fun p hp => StoreWorld.dirs_setDir_ne _ hp _, StoreWorld.dirs_setDir_self _ _ _⟩
  · rw [if_neg hok] at hrun
    refine hrun.mono (fun _ _ h => absurd h.1 hok) ?_ fun _ _ h => h
    rintro - ⟨w, log⟩ ⟨-, rfl⟩
    exact ⟨rfl, fun h => hok (h.1 _)⟩

/-- An encryption changes its own directory only. -/
theorem encryptOn_below (f : StoreFaults) (staging value : String) {key : String} (hkey : IsPart key)
    (w : StoreWorld) :
    (∀ p, p ≠ pathParts staging →
      (encryptOn f key (staging ++ "/" ++ key) value w).2.dirs p = w.dirs p) ∧
    (encryptOn f key (staging ++ "/" ++ key) value w).1 = f.encryptEnd w.clock ∧
    (f.encryptEnd w.clock = .status 0 →
      (encryptOn f key (staging ++ "/" ++ key) value w).2.dirs (pathParts staging) =
        some (Assoc.overwrite ((w.dirs (pathParts staging)).getD [])
          (key, f.cipher w.clock key value))) := by
  rw [encryptOn, pathParts_below staging hkey, List.dropLast_concat, List.getLast?_concat,
    Option.getD_some]
  split
  · next hend =>
    refine ⟨fun p hp => StoreWorld.dirs_setDir_ne _ hp _, hend.symm, fun _ => ?_⟩
    exact StoreWorld.dirs_setDir_self _ _ _
  · next hother =>
    exact ⟨fun p hp => StoreWorld.dirs_setDir_ne _ hp _, rfl, fun h => absurd h hother⟩

/-- One credential: its file is written into the staging directory, or something fails there. -/
theorem ensures_sealOne (hkey : isValidVarName key = true) (s : Run StoreWorld) :
    Ensures (sealOne (storeMachine sha256 hostKey f) ctx staging key) s
      ⟨fun _ s' => (∀ p, p ≠ pathParts staging → s'.world.dirs p = s.world.dirs p) ∧
          Given ctx key ∧ ∃ n value, ctx.var key = some value ∧ s'.world.dirs (pathParts staging) =
            some (Assoc.overwrite ((s.world.dirs (pathParts staging)).getD [])
              (key, f.cipher n key value)),
        fun _ s' => (∀ p, p ≠ pathParts staging → s'.world.dirs p = s.world.dirs p) ∧
          (¬ Given ctx key ∨ ¬ f.Seals),
        fun _ _ => False⟩ := by
  rw [sealOne, if_pos hkey]
  cases hvar : ctx.var key with
  | none =>
    refine ⟨fun _ _ => rfl, .inl ?_⟩
    rintro ⟨value, hvalue, -⟩
    rw [hvar] at hvalue
    cases hvalue
  | some value =>
    dsimp only
    by_cases hempty : value = ""
    · rw [if_pos hempty]
      refine ⟨fun _ _ => rfl, .inl ?_⟩
      rintro ⟨value', hvalue, hne⟩
      rw [hvar, Option.some_inj] at hvalue
      exact hne (hvalue ▸ hempty)
    · rw [if_neg hempty, ensures_bind, ensures_operate]
      have hgiven : Given ctx key := ⟨value, hvar, hempty⟩
      obtain ⟨hother, hend, hdone⟩ :=
        encryptOn_below f staging value (isPart_of_isValidVarName hkey) s.world
      have hfailed : ∀ ended, (encryptOn f key (staging ++ "/" ++ key) value s.world).1 = ended →
          ended ≠ .status 0 → ¬ Given ctx key ∨ ¬ f.Seals := by
        intro ended hkind hne
        rw [hend] at hkind
        exact .inr fun h => hne (hkind.symm.trans (h.2 _))
      dsimp only [storeMachine]
      cases hkind : (encryptOn f key (staging ++ "/" ++ key) value s.world).1 with
      | notStarted => exact ⟨hother, hfailed _ hkind nofun⟩
      | stdinBroken => exact ⟨hother, hfailed _ hkind nofun⟩
      | notFinished => exact ⟨hother, hfailed _ hkind nofun⟩
      | status code =>
        dsimp only
        by_cases hcode : code = 0
        · subst hcode
          rw [if_pos rfl]
          refine (ensures_runSudo sha256 hostKey f _ _).mono ?_ ?_ fun _ _ h => h
          · rintro - ⟨w, log⟩ ⟨-, rfl⟩
            exact ⟨hother, hgiven, _, value, rfl, hdone (hend.symm.trans hkind)⟩
          · rintro - ⟨w, log⟩ ⟨hbad, rfl⟩
            exact ⟨hother, .inr fun h => hbad (h.1 _)⟩
        · rw [if_neg hcode]
          exact ⟨hother, hfailed _ hkind fun h => hcode (EncryptEnd.status.inj h)⟩

/-- What is in the staging directory when some of the keys are sealed. -/
def SealedSoFar (f : StoreFaults) (ctx : ProcessContext) (done : List String) (files : StoreDir) :
    Prop :=
  ∀ name, if name ∈ done then
      ∃ n value, ctx.var name = some value ∧ files.lookup name = some (f.cipher n name value)
    else files.lookup name = none

theorem SealedSoFar.push {done : List String} {files : StoreDir} {n : Nat} {value : String}
    (h : SealedSoFar f ctx done files) (hvar : ctx.var key = some value) :
    SealedSoFar f ctx (done ++ [key]) (Assoc.overwrite files (key, f.cipher n key value)) := by
  intro name
  rw [Assoc.lookup_overwrite]
  by_cases hname : key = name
  · subst hname
    rw [if_pos (by simp)]
    exact ⟨n, value, hvar, if_pos rfl⟩
  · rw [if_neg hname]
    have hsame : name ∈ done ++ [key] ↔ name ∈ done := by simp [Ne.symm hname]
    simp only [hsame]
    exact h name

/-- All credentials, or something fails in the staging directory. -/
theorem ensures_sealAll (hvalid : ∀ key ∈ keys, isValidVarName key = true) (s : Run StoreWorld)
    (hempty : s.world.dirs (pathParts staging) = some []) :
    Ensures (sealAll (storeMachine sha256 hostKey f) ctx keys staging) s
      ⟨fun _ s' => (∀ p, p ≠ pathParts staging → s'.world.dirs p = s.world.dirs p) ∧
          (∀ key ∈ keys, Given ctx key) ∧ ∃ files,
            s'.world.dirs (pathParts staging) = some files ∧ SealedSoFar f ctx keys files,
        fun _ s' => (∀ p, p ≠ pathParts staging → s'.world.dirs p = s.world.dirs p) ∧
          ((∃ key ∈ keys, ¬ Given ctx key) ∨ ¬ f.Seals),
        fun _ _ => False⟩ := by
  refine ensures_each (fun done s' => (∀ p, p ≠ pathParts staging → s'.world.dirs p = s.world.dirs p) ∧
    (∀ key ∈ done, Given ctx key) ∧ ∃ files,
      s'.world.dirs (pathParts staging) = some files ∧ SealedSoFar f ctx done files)
    ⟨fun _ _ => rfl, nofun, [], hempty, fun _ => rfl⟩ ?_ fun _ h => h
  rintro done key rest s' hkeys ⟨hsame, hgiven, files, hfiles, hsealed⟩
  have hmem : key ∈ keys := hkeys ▸ List.mem_append_right _ List.mem_cons_self
  refine (ensures_sealOne (hvalid key hmem) s').mono ?_ ?_ fun _ _ h => h
  · rintro - s'' ⟨hother, hkey, n, value, hvar, hdir⟩
    refine ⟨fun p hp => (hother p hp).trans (hsame p hp), ?_, _, hdir, ?_⟩
    · intro key' hkey'
      rcases List.mem_append.mp hkey' with hkey' | hkey'
      · exact hgiven key' hkey'
      · rw [List.mem_singleton.mp hkey']
        exact hkey
    · rw [hfiles, Option.getD_some]
      exact hsealed.push hvar
  · rintro - s'' ⟨hother, hwhy⟩
    exact ⟨fun p hp => (hother p hp).trans (hsame p hp), hwhy.imp_left fun h => ⟨key, hmem, h⟩⟩

theorem SealedSoFar.complete {files : StoreDir} (h : SealedSoFar f ctx keys files) :
    CompleteSet f ctx keys (some files) := by
  refine ⟨rfl, fun name hname => ?_⟩
  have hone := h name
  have hfile : sealedFile (some files) name = files.lookup name := if_neg hname
  split
  · next hmem =>
    rw [if_pos hmem] at hone
    rwa [hfile]
  · next hmem =>
    rw [if_neg hmem] at hone
    rwa [hfile]

/-- The fingerprint is written beside the credentials. -/
theorem ensures_writeFingerprint (fingerprint : String) (s : Run StoreWorld)
    (Q : Option StoreDir → Prop)
    (hQ : ∀ dir, dir.isSome = (s.world.dirs (pathParts store)).isSome →
      sealedFile dir = sealedFile (s.world.dirs (pathParts store)) → Q dir) :
    Ensures (writeFingerprint (storeMachine sha256 hostKey f) store fingerprint) s
      ⟨fun _ s' => Q (s'.world.dirs (pathParts store)), fun _ _ => False, fun _ _ => False⟩ := by
  have hpart : IsPart fingerprintFile := ⟨by decide, by decide, by decide⟩
  rw [writeFingerprint, ensures_operate]
  dsimp only [storeMachine]
  rw [writeOn, pathParts_below store hpart, List.dropLast_concat, List.getLast?_concat,
    Option.getD_some]
  split
  · rw [StoreWorld.dirs_setDir_self]
    refine hQ _ (by simp) ?_
    funext name
    rw [sealedFile, sealedFile]
    split
    · rfl
    · next hname =>
      cases s.world.dirs (pathParts store) with
      | none => rfl
      | some files =>
        rw [Option.map_some, Option.getD_some, Option.getD_some, Assoc.lookup_overwrite,
          if_neg (Ne.symm hname)]
  · exact hQ _ rfl rfl

/-- A rename to a free path: it is done, or the fault of that time stops it. -/
theorem renameOn_free {a b : String} {w : StoreWorld} {dir : StoreDir}
    (ha : w.dirs (pathParts a) = some dir) (hb : w.dirs (pathParts b) = none) :
    renameOn f a b w = match f.renameError w.clock a b with
      | some error => (some error, w.tick)
      | none => (none, (w.setDir (pathParts a) none).setDir (pathParts b) (some dir)) := by
  rw [renameOn, ha, hb]
  cases f.renameError w.clock a b <;> rfl

/-- What the live directory is after the replacement: as before, complete, or gone when the old
store was renamed to itself. -/
def Replaced (f : StoreFaults) (ctx : ProcessContext) (keys : List String) (store : String)
    (old live : Option StoreDir) : Prop :=
  live = old ∨ CompleteSet f ctx keys live ∨
    live = none ∧ pathParts (retiredPath store) = pathParts store ∧ ∀ key ∈ keys, Given ctx key

theorem CompleteSet.of_same {dir live : Option StoreDir} (h : CompleteSet f ctx keys dir)
    (hsome : live.isSome = dir.isSome) (hsame : sealedFile live = sealedFile dir) :
    CompleteSet f ctx keys live := ⟨hsome.trans h.1, hsame ▸ h.2⟩

section Rules
variable {ε α β : Type}

theorem ensures_discard_bind (path : String) (next : Unit → Verb StoreWorld String α)
    (s : Run StoreWorld) (post : Post (Run StoreWorld) String α) :
    Ensures (discardTree (storeMachine sha256 hostKey f) path >>= next) s post ↔
      Ensures (next ()) ⟨s.world.setDir (pathParts path) none,
        s.log ++ [.did (.removed path)]⟩ post := Iff.rfl

theorem ensures_ask_bind (question : StoreWorld → β) (next : β → Verb StoreWorld ε α)
    (s : Run StoreWorld) (post : Post (Run StoreWorld) ε α) :
    Ensures (ask question >>= next) s post ↔ Ensures (next (question s.world)) s post := Iff.rfl

theorem ensures_rename_bind (a b : String) (next : Option String → Verb StoreWorld String α)
    (s : Run StoreWorld) (post : Post (Run StoreWorld) String α) :
    Ensures (operate (.renamed a b) ((storeMachine sha256 hostKey f).rename a b) >>= next) s post ↔
      Ensures (next (renameOn f a b s.world).1) ⟨(renameOn f a b s.world).2,
        s.log ++ [.did (.renamed a b)]⟩ post := Iff.rfl

theorem ensures_exchange_bind (a b : String) (next : Bool → Verb StoreWorld String α)
    (s : Run StoreWorld) (post : Post (Run StoreWorld) String α) :
    Ensures (operate (.exchanged a b) ((storeMachine sha256 hostKey f).exchange a b) >>= next) s post ↔
      Ensures (next (exchangeOn f a b s.world).1) ⟨(exchangeOn f a b s.world).2,
        s.log ++ [.did (.exchanged a b)]⟩ post := Iff.rfl

theorem ensures_renameWhen_false (a b : String) (next : Option String → Verb StoreWorld String α)
    (s : Run StoreWorld) (post : Post (Run StoreWorld) String α) :
    Ensures (renameWhen (storeMachine sha256 hostKey f) false a b >>= next) s post ↔
      Ensures (next none) s post := Iff.rfl

theorem ensures_renameWhen_true (a b : String) (next : Option String → Verb StoreWorld String α)
    (s : Run StoreWorld) (post : Post (Run StoreWorld) String α) :
    Ensures (renameWhen (storeMachine sha256 hostKey f) true a b >>= next) s post ↔
      Ensures (next (renameOn f a b s.world).1) ⟨(renameOn f a b s.world).2,
        s.log ++ [.did (.renamed a b)]⟩ post := Iff.rfl

theorem pathExists_storeMachine (path : String) (w : StoreWorld) :
    (storeMachine sha256 hostKey f).pathExists path w = (w.dirs (pathParts path)).isSome := rfl

end Rules

/-- When the old store is renamed to itself, it is discarded as the leftover of an earlier run, and
the new one with it. -/
theorem ensures_replaceByRename_self (fingerprint : String) (s : Run StoreWorld)
    {files : StoreDir} (hnew : s.world.dirs (pathParts (stagingPath store)) = some files)
    (hself : pathParts (retiredPath store) = pathParts store) :
    Ensures (replaceByRename (storeMachine sha256 hostKey f) store (stagingPath store) fingerprint) s
      ⟨fun _ s' => s'.world.dirs (pathParts store) = none,
        fun _ s' => s'.world.dirs (pathParts store) = none, fun _ _ => False⟩ := by
  have hgone : (s.world.setDir (pathParts (retiredPath store)) none).dirs (pathParts store) = none := by
    rw [hself, StoreWorld.dirs_setDir_self]
  have hstaged : (s.world.setDir (pathParts (retiredPath store)) none).dirs
      (pathParts (stagingPath store)) = some files := by
    rw [StoreWorld.dirs_setDir_ne _ (staging_ne_retired store), hnew]
  rw [replaceByRename, ensures_discard_bind, ensures_ask_bind, pathExists_storeMachine, hgone,
    Option.isSome_none, ensures_renameWhen_false]
  dsimp only
  rw [ensures_rename_bind, renameOn_free hstaged hgone]
  cases f.renameError (s.world.setDir (pathParts (retiredPath store)) none).clock
      (stagingPath store) store with
  | some error =>
    dsimp only
    rw [ensures_renameWhen_false, ensures_discard_bind, ensures_fail]
    exact (StoreWorld.dirs_setDir_ne _ (staging_ne_store store).symm _).trans hgone
  | none =>
    dsimp only
    rw [ensures_discard_bind]
    refine (ensures_writeFingerprint fingerprint _ (fun dir => dir = none) ?_).mono
      (fun _ _ h => h) (fun _ _ h => h.elim) fun _ _ h => h
    intro dir hdir _
    rw [hself, StoreWorld.dirs_setDir_self] at hdir
    exact Option.isNone_iff_eq_none.mp (by simpa using hdir)

/-- Renaming the old store aside and the new one into its place. -/
theorem ensures_replaceByRename (fingerprint : String) (s : Run StoreWorld)
    {old files : StoreDir} (hold : s.world.dirs (pathParts store) = some old)
    (hnew : s.world.dirs (pathParts (stagingPath store)) = some files)
    (hsealed : SealedSoFar f ctx keys files) (hgiven : ∀ key ∈ keys, Given ctx key)
    (hrestore : ∀ n, f.renameError n (retiredPath store) store = none) :
    Ensures (replaceByRename (storeMachine sha256 hostKey f) store (stagingPath store) fingerprint) s
      ⟨fun _ s' => Replaced f ctx keys store (some old) (s'.world.dirs (pathParts store)),
        fun _ s' => Replaced f ctx keys store (some old) (s'.world.dirs (pathParts store)),
        fun _ _ => False⟩ := by
  by_cases hself : pathParts (retiredPath store) = pathParts store
  · exact (ensures_replaceByRename_self fingerprint s hnew hself).mono
      (fun _ _ h => .inr (.inr ⟨h, hself, hgiven⟩)) (fun _ _ h => .inr (.inr ⟨h, hself, hgiven⟩))
      fun _ _ h => h
  · have hlive : (s.world.setDir (pathParts (retiredPath store)) none).dirs (pathParts store) =
        some old := by
      rw [StoreWorld.dirs_setDir_ne _ (Ne.symm hself), hold]
    have hfree : (s.world.setDir (pathParts (retiredPath store)) none).dirs
        (pathParts (retiredPath store)) = none := StoreWorld.dirs_setDir_self _ _ _
    rw [replaceByRename, ensures_discard_bind, ensures_ask_bind, pathExists_storeMachine, hlive,
      Option.isSome_some, ensures_renameWhen_true, renameOn_free hlive hfree]
    cases f.renameError (s.world.setDir (pathParts (retiredPath store)) none).clock store
        (retiredPath store) with
    | some error =>
      dsimp only
      rw [ensures_discard_bind, ensures_fail]
      refine .inl ?_
      rw [StoreWorld.dirs_setDir_ne _ (staging_ne_store store).symm]
      exact hlive
    | none =>
      dsimp only
      rw [ensures_rename_bind]
      generalize hwhen : (s.world.setDir (pathParts (retiredPath store)) none) = w at hlive hfree ⊢
      have haside : ((w.setDir (pathParts store) none).setDir (pathParts (retiredPath store))
          (some old)).dirs (pathParts (retiredPath store)) = some old := StoreWorld.dirs_setDir_self _ _ _
      have hgone : ((w.setDir (pathParts store) none).setDir (pathParts (retiredPath store))
          (some old)).dirs (pathParts store) = none := by
        rw [StoreWorld.dirs_setDir_ne _ (Ne.symm hself), StoreWorld.dirs_setDir_self]
      have hstaged : ((w.setDir (pathParts store) none).setDir (pathParts (retiredPath store))
          (some old)).dirs (pathParts (stagingPath store)) = some files := by
        rw [StoreWorld.dirs_setDir_ne _ (staging_ne_retired store),
          StoreWorld.dirs_setDir_ne _ (staging_ne_store store), ← hwhen,
          StoreWorld.dirs_setDir_ne _ (staging_ne_retired store), hnew]
      generalize (w.setDir (pathParts store) none).setDir (pathParts (retiredPath store))
        (some old) = w' at haside hgone hstaged ⊢
      rw [renameOn_free hstaged hgone]
      cases f.renameError w'.clock (stagingPath store) store with
      | some error =>
        dsimp only
        rw [ensures_renameWhen_true, renameOn_free (w := w'.tick) haside hgone, hrestore]
        dsimp only
        rw [ensures_discard_bind, ensures_fail]
        refine .inl ?_
        rw [StoreWorld.dirs_setDir_ne _ (staging_ne_store store).symm, StoreWorld.dirs_setDir_self]
      | none =>
        dsimp only
        rw [ensures_discard_bind]
        refine (ensures_writeFingerprint fingerprint _ (Replaced f ctx keys store (some old)) ?_).mono
          (fun _ _ h => h) (fun _ _ h => h.elim) fun _ _ h => h
        intro dir hsome hsame
        rw [StoreWorld.dirs_setDir_ne _ (Ne.symm hself), StoreWorld.dirs_setDir_self] at hsome hsame
        exact .inr (.inl (hsealed.complete.of_same hsome hsame))

theorem exchangeOn_both {a b : String} {w : StoreWorld} {dirA dirB : StoreDir}
    (ha : w.dirs (pathParts a) = some dirA) (hb : w.dirs (pathParts b) = some dirB) :
    exchangeOn f a b w = if f.exchanges w.clock then
      (true, (w.setDir (pathParts a) (some dirB)).setDir (pathParts b) (some dirA))
    else (false, w.tick) := by
  rw [exchangeOn, ha, hb]
  cases f.exchanges w.clock <;> rfl

/-- Building the new store and putting it into the place of the old one. -/
theorem ensures_replaceStore (hvalid : ∀ key ∈ keys, isValidVarName key = true) (fingerprint : String)
    (s : Run StoreWorld) {old : StoreDir} (hold : s.world.dirs (pathParts store) = some old)
    (hrestore : ∀ n, f.renameError n (retiredPath store) store = none) :
    Ensures (replaceStore (storeMachine sha256 hostKey f) ctx keys store fingerprint) s
      ⟨fun _ s' => Replaced f ctx keys store (some old) (s'.world.dirs (pathParts store)),
        fun _ s' => Replaced f ctx keys store (some old) (s'.world.dirs (pathParts store)),
        fun _ _ => False⟩ := by
  have hstore := (staging_ne_store store).symm
  rw [replaceStore, ensures_discard_bind, ensures_bind]
  refine (ensures_makeDir _ _).mono ?_ ?_ fun _ _ h => h
  · rintro - s₁ ⟨hother, hmade⟩
    have hold₁ : s₁.world.dirs (pathParts store) = some old := by
      rw [hother _ hstore, StoreWorld.dirs_setDir_ne _ hstore, hold]
    rw [StoreWorld.dirs_setDir_self, Option.getD_none] at hmade
    dsimp only
    rw [ensures_bind, ensures_attempt]
    refine (ensures_sealAll hvalid s₁ hmade).mono ?_ ?_ fun _ _ h => h
    · rintro - s₂ ⟨hother₂, hgiven, files, hfiles, hsealed⟩
      have hold₂ : s₂.world.dirs (pathParts store) = some old := (hother₂ _ hstore).trans hold₁
      dsimp only
      rw [ensures_exchange_bind, exchangeOn_both hfiles hold₂]
      cases f.exchanges s₂.world.clock with
      | true =>
        rw [if_pos rfl, if_pos rfl, ensures_discard_bind]
        refine (ensures_writeFingerprint fingerprint _ (Replaced f ctx keys store (some old)) ?_).mono
          (fun _ _ h => h) (fun _ _ h => h.elim) fun _ _ h => h
        intro dir hsome hsame
        rw [StoreWorld.dirs_setDir_ne _ hstore, StoreWorld.dirs_setDir_self] at hsome hsame
        exact .inr (.inl (hsealed.complete.of_same hsome hsame))
      | false =>
        rw [if_neg Bool.false_ne_true, if_neg Bool.false_ne_true]
        exact ensures_replaceByRename fingerprint _ hold₂ hfiles hsealed hgiven hrestore
    · rintro error s₂ ⟨hother₂, -⟩
      dsimp only
      rw [ensures_discard_bind, ensures_fail]
      refine .inl ?_
      rw [StoreWorld.dirs_setDir_ne _ hstore, hother₂ _ hstore, hold₁]
  · rintro error s₁ ⟨hsame, -⟩
    refine .inl ?_
    rw [hsame, StoreWorld.dirs_setDir_ne _ hstore, hold]

/-- Without the exchange, a store that is renamed to itself is gone. -/
theorem ensures_replaceStore_self (hvalid : ∀ key ∈ keys, isValidVarName key = true)
    (fingerprint : String) (s : Run StoreWorld) (hself : pathParts (retiredPath store) = pathParts store)
    (hseals : f.Seals) (hexchange : ∀ n, f.exchanges n = false) (hgiven : ∀ key ∈ keys, Given ctx key)
    {old : StoreDir} (hold : s.world.dirs (pathParts store) = some old) :
    Ensures (replaceStore (storeMachine sha256 hostKey f) ctx keys store fingerprint) s
      ⟨fun _ s' => s'.world.dirs (pathParts store) = none,
        fun _ s' => s'.world.dirs (pathParts store) = none, fun _ _ => False⟩ := by
  have hstore := (staging_ne_store store).symm
  rw [replaceStore, ensures_discard_bind, ensures_bind]
  refine (ensures_makeDir _ _).mono ?_ (fun _ _ h => absurd hseals h.2) fun _ _ h => h
  rintro - s₁ ⟨hother, hmade⟩
  have hold₁ : s₁.world.dirs (pathParts store) = some old := by
    rw [hother _ hstore, StoreWorld.dirs_setDir_ne _ hstore, hold]
  rw [StoreWorld.dirs_setDir_self, Option.getD_none] at hmade
  dsimp only
  rw [ensures_bind, ensures_attempt]
  refine (ensures_sealAll hvalid s₁ hmade).mono ?_ ?_ fun _ _ h => h
  · rintro - s₂ ⟨hother₂, -, files, hfiles, -⟩
    have hold₂ : s₂.world.dirs (pathParts store) = some old := (hother₂ _ hstore).trans hold₁
    dsimp only
    rw [ensures_exchange_bind, exchangeOn_both hfiles hold₂, hexchange, if_neg Bool.false_ne_true,
      if_neg Bool.false_ne_true]
    exact ensures_replaceByRename_self fingerprint _ hfiles hself
  · rintro error s₂ ⟨-, ⟨key, hkey, hmissing⟩ | hbroken⟩
    · exact absurd (hgiven key hkey) hmissing
    · exact absurd hseals hbroken

/-- The fingerprint of the credentials a run would seal. -/
def runFingerprint (sha256 : List UInt8 → List UInt8) (hostKey : Option (List UInt8))
    (ctx : ProcessContext) (keys : List String) (valid : ∀ key ∈ keys, isValidVarName key = true) :
    String := (SealInput.mk keys ctx.var hostKey valid).sealFingerprint sha256

/-- The store directory is made, and then a store that is not current is replaced. -/
theorem ensures_sealIntoStore_iff (service : String) (storeDir : Option String)
    (valid : ∀ key ∈ keys, isValidVarName key = true) (s : Run StoreWorld)
    (post : Post (Run StoreWorld) String Unit) :
    Ensures (sealIntoStore (storeMachine sha256 hostKey f) ctx service storeDir keys valid) s post ↔
      Ensures (runSudo (storeMachine sha256 hostKey f)
        ["install", "-d", "-m", "0700", storeDir.getD (storePath service)]) s
        ⟨fun _ s' => Ensures (if storeIsCurrent
            (storeOf (s'.world.dirs (pathParts (storeDir.getD (storePath service))))) keys
            (runFingerprint sha256 hostKey ctx keys valid)
          then pure () else replaceStore (storeMachine sha256 hostKey f) ctx keys
            (storeDir.getD (storePath service)) (runFingerprint sha256 hostKey ctx keys valid)) s' post,
          post.failed, post.exited⟩ := by
  rw [sealIntoStore, ensures_bind]
  exact Iff.rfl

/-- A store that is not there is no other than an empty one to the check. -/
theorem storeOf_getD (dir : Option StoreDir) : storeOf (some (dir.getD [])) = storeOf dir := by
  cases dir <;> rfl

theorem sealedFile_getD (dir : Option StoreDir) :
    sealedFile (some (dir.getD [])) = sealedFile dir := by
  funext name
  cases dir <;> rfl

/-- What the store is after a run: as before, the same store found current, or replaced. -/
def Settled (sha256 : List UInt8 → List UInt8) (hostKey : Option (List UInt8)) (f : StoreFaults)
    (ctx : ProcessContext) (keys : List String) (valid : ∀ key ∈ keys, isValidVarName key = true)
    (store : String) (old live : Option StoreDir) : Prop :=
  live = old ∨ live = some (old.getD []) ∨
    storeIsCurrent (storeOf old) keys (runFingerprint sha256 hostKey ctx keys valid) = false ∧
      Replaced f ctx keys store (some (old.getD [])) live

theorem ensures_sealIntoStore (service : String) (storeDir : Option String)
    (valid : ∀ key ∈ keys, isValidVarName key = true) (s : Run StoreWorld)
    (hstore : storeDir.getD (storePath service) = store)
    (hrestore : ∀ n, f.renameError n (retiredPath store) store = none) :
    Ensures (sealIntoStore (storeMachine sha256 hostKey f) ctx service storeDir keys valid) s
      ⟨fun _ s' => Settled sha256 hostKey f ctx keys valid store (s.world.dirs (pathParts store))
          (s'.world.dirs (pathParts store)),
        fun _ s' => Settled sha256 hostKey f ctx keys valid store (s.world.dirs (pathParts store))
          (s'.world.dirs (pathParts store)),
        fun _ _ => False⟩ := by
  rw [ensures_sealIntoStore_iff, hstore]
  refine (ensures_makeDir _ s).mono ?_ (fun _ _ h => .inl (congrFun h.1 _)) fun _ _ h => h
  rintro - s₁ ⟨-, hmade⟩
  dsimp only
  rw [hmade, storeOf_getD]
  cases hcurrent : storeIsCurrent (storeOf (s.world.dirs (pathParts store))) keys
      (runFingerprint sha256 hostKey ctx keys valid) with
  | true =>
    rw [if_pos rfl, ensures_pure]
    exact .inr (.inl hmade)
  | false =>
    rw [if_neg Bool.false_ne_true]
    exact (ensures_replaceStore valid _ s₁ hmade hrestore).mono
      (fun _ _ h => .inr (.inr ⟨hcurrent, h⟩)) (fun _ _ h => .inr (.inr ⟨hcurrent, h⟩)) fun _ _ h => h

theorem ensures_sealIntoStore_self (service : String) (storeDir : Option String)
    (valid : ∀ key ∈ keys, isValidVarName key = true) (s : Run StoreWorld)
    (hstore : storeDir.getD (storePath service) = store)
    (hself : pathParts (retiredPath store) = pathParts store)
    (hcurrent : storeIsCurrent (storeOf (s.world.dirs (pathParts store))) keys
      (runFingerprint sha256 hostKey ctx keys valid) = false)
    (hseals : f.Seals) (hexchange : ∀ n, f.exchanges n = false)
    (hgiven : ∀ key ∈ keys, Given ctx key) :
    Ensures (sealIntoStore (storeMachine sha256 hostKey f) ctx service storeDir keys valid) s
      ⟨fun _ s' => s'.world.dirs (pathParts store) = none,
        fun _ s' => s'.world.dirs (pathParts store) = none, fun _ _ => False⟩ := by
  rw [ensures_sealIntoStore_iff, hstore]
  refine (ensures_makeDir _ s).mono ?_ (fun _ _ h => absurd hseals h.2) fun _ _ h => h
  rintro - s₁ ⟨-, hmade⟩
  dsimp only
  rw [hmade, storeOf_getD, hcurrent, if_neg Bool.false_ne_true]
  exact ensures_replaceStore_self valid _ s₁ hself hseals hexchange hgiven hmade

end Steps

/-- Every operation succeeds, on a system that cannot exchange two directories. -/
def withoutExchange : StoreFaults where
  sudoEnd _ := some 0
  encryptEnd _ := .status 0
  debris _ := []
  cipher _ _ value := Bytes.encode value.toList
  exchanges _ := false
  renameError _ _ _ := none
  writes _ := true

section Atomic
variable (sha256 : List UInt8 → List UInt8) (hostKey : Option (List UInt8)) (ctx : ProcessContext)

/-- The directory at `store` after a run on a disk with these faults. -/
def liveAfter (f : StoreFaults) (service : String) (storeDir : Option String) (keys : List String)
    (valid : ∀ key ∈ keys, isValidVarName key = true) (w : StoreWorld) (store : String) :
    Option StoreDir :=
  (sealIntoStore (storeMachine sha256 hostKey f) ctx service storeDir keys valid
    ⟨w, []⟩).2.world.dirs (pathParts store)

/-- The run has nothing to lose at this path: the old store is renamed to another directory, or
there is none, or it stays. -/
def Replaceable (keys : List String) (valid : ∀ key ∈ keys, isValidVarName key = true)
    (store : String) (old : Option StoreDir) : Prop :=
  (∃ name, fileName store = some name ∧ fileStem name ++ ".old" ≠ name) ∨ old = none ∨
    storeIsCurrent (storeOf old) keys (runFingerprint sha256 hostKey ctx keys valid) = true ∨
    ∃ key ∈ keys, ¬ Given ctx key

theorem retired_ne_store_iff {store : String} :
    (∃ name, fileName store = some name ∧ fileStem name ++ ".old" ≠ name) ↔
      pathParts (retiredPath store) ≠ pathParts store := by
  rw [Ne, retired_eq_store_iff]
  push Not
  rfl

variable {sha256 hostKey ctx}

theorem sealedAtomically_of_settled {f : StoreFaults} {keys : List String}
    {valid : ∀ key ∈ keys, isValidVarName key = true} {store : String} {old live : Option StoreDir}
    (hsafe : Replaceable sha256 hostKey ctx keys valid store old)
    (h : Settled sha256 hostKey f ctx keys valid store old live) :
    SealedAtomically f ctx keys old live := by
  rcases h with rfl | rfl | ⟨hstale, rfl | hcomplete | ⟨rfl, hself, hgiven⟩⟩
  · exact ⟨id, .inl rfl⟩
  · exact ⟨fun _ => rfl, .inl (sealedFile_getD old)⟩
  · exact ⟨fun _ => rfl, .inl (sealedFile_getD old)⟩
  · exact ⟨fun _ => hcomplete.1, .inr hcomplete⟩
  · rcases hsafe with hother | rfl | hcurrent | ⟨key, hkey, hmissing⟩
    · exact absurd hself (retired_ne_store_iff.mp hother)
    · exact ⟨nofun, .inl rfl⟩
    · rw [hstale] at hcurrent
      cases hcurrent
    · exact absurd (hgiven key hkey) hmissing

theorem liveAfter_withoutExchange {service : String} {storeDir : Option String} {keys : List String}
    {valid : ∀ key ∈ keys, isValidVarName key = true} {w : StoreWorld} {store : String}
    (hstore : storeDir.getD (storePath service) = store)
    (hlost : ¬ Replaceable sha256 hostKey ctx keys valid store (w.dirs (pathParts store))) :
    liveAfter sha256 hostKey ctx withoutExchange service storeDir keys valid w store = none := by
  rw [Replaceable, retired_ne_store_iff] at hlost
  push Not at hlost
  obtain ⟨hself, -, hstale, hgiven⟩ := hlost
  exact (ensures_sealIntoStore_self service storeDir valid ⟨w, []⟩ hstore hself
    (Bool.eq_false_iff.mpr hstale) ⟨fun _ => rfl, fun _ => rfl⟩ (fun _ => rfl) hgiven).final

/-- Wherever an operation fails, the live store holds the old credentials or all of the new ones,
exactly when the store is not the path the old store is renamed to. -/
theorem sealIntoStore_atomic_iff (sha256 : List UInt8 → List UInt8) (hostKey : Option (List UInt8))
    (ctx : ProcessContext) (service : String) (storeDir : Option String) (keys : List String)
    (valid : ∀ key ∈ keys, isValidVarName key = true) (w : StoreWorld) (store : String)
    (hstore : storeDir.getD (storePath service) = store) :
    (∀ f : StoreFaults, (∀ n, f.renameError n (retiredPath store) store = none) →
      SealedAtomically f ctx keys (w.dirs (pathParts store))
        (liveAfter sha256 hostKey ctx f service storeDir keys valid w store)) ↔
      Replaceable sha256 hostKey ctx keys valid store (w.dirs (pathParts store)) := by
  constructor
  · intro hall
    by_contra hlost
    have hgone := liveAfter_withoutExchange hstore hlost
    have hsafe := hall withoutExchange fun _ => rfl
    rw [hgone] at hsafe
    have hsome : (w.dirs (pathParts store)).isSome := by
      rw [Replaceable] at hlost
      push Not at hlost
      exact Option.isSome_iff_ne_none.mpr hlost.2.1
    exact absurd (hsafe.1 hsome) Bool.false_ne_true
  · intro hsafe f hrestore
    have hrun : Settled sha256 hostKey f ctx keys valid store (w.dirs (pathParts store))
        (liveAfter sha256 hostKey ctx f service storeDir keys valid w store) :=
      (ensures_sealIntoStore service storeDir valid ⟨w, []⟩ hstore hrestore).final
    exact sealedAtomically_of_settled hsafe hrun

/-- An environment with one credential, and a disk with a store of one file. -/
def tokenContext : ProcessContext where
  isRoot := true
  elevated := false
  secretKeys := some "TOKEN"
  var name := if name = "TOKEN" then some "new" else none

def oldStoreWorld : StoreWorld where
  dirs path := if path = pathParts "/x/app.old" then some [("TOKEN", [1])] else none
  clock := 0

theorem isValidVarName_token : ∀ key ∈ ["TOKEN"], isValidVarName key = true := by decide +kernel

/-- The default store of a service is not named `old`. -/
theorem sealIntoStore_atomic_default :
    "/etc/credstore.encrypted/app" = storePath "app" ∧
      ∀ f : StoreFaults, (∀ n, f.renameError n (retiredPath "/etc/credstore.encrypted/app")
          "/etc/credstore.encrypted/app" = none) →
        SealedAtomically f tokenContext ["TOKEN"]
          (oldStoreWorld.dirs (pathParts "/etc/credstore.encrypted/app"))
          (liveAfter id none tokenContext f "app" none ["TOKEN"] isValidVarName_token oldStoreWorld
            "/etc/credstore.encrypted/app") :=
  ⟨rfl, (sealIntoStore_atomic_iff id none tokenContext "app" none ["TOKEN"] isValidVarName_token
    oldStoreWorld "/etc/credstore.encrypted/app" rfl).mpr
      (.inl ⟨"app", by decide +kernel, by decide +kernel⟩)⟩

/-- A store directory named `app.old` is discarded, and the new store after it. -/
theorem sealIntoStore_loses_app_old :
    ¬ ∀ (sha256 : List UInt8 → List UInt8) (hostKey : Option (List UInt8)) (ctx : ProcessContext)
      (service : String) (storeDir : Option String) (keys : List String)
      (valid : ∀ key ∈ keys, isValidVarName key = true) (w : StoreWorld) (store : String),
      storeDir.getD (storePath service) = store →
      ∀ f : StoreFaults, (∀ n, f.renameError n (retiredPath store) store = none) →
        SealedAtomically f ctx keys (w.dirs (pathParts store))
          (liveAfter sha256 hostKey ctx f service storeDir keys valid w store) := by
  intro hall
  have hlost : ¬ Replaceable id none tokenContext ["TOKEN"] isValidVarName_token "/x/app.old"
      (oldStoreWorld.dirs (pathParts "/x/app.old")) := by
    rintro (⟨name, hname, hne⟩ | hnone | hcurrent | ⟨key, hkey, hmissing⟩)
    · have hold : fileName "/x/app.old" = some "app.old" := by decide +kernel
      rw [hold, Option.some_inj] at hname
      subst hname
      exact hne (by decide +kernel)
    · cases hnone
    · revert hcurrent
      decide +kernel
    · rw [List.mem_singleton.mp hkey] at hmissing
      exact hmissing ⟨"new", rfl, by decide⟩
  have hgone : liveAfter id none tokenContext withoutExchange "app" (some "/x/app.old") ["TOKEN"]
      isValidVarName_token oldStoreWorld "/x/app.old" = none := liveAfter_withoutExchange rfl hlost
  have hsafe := hall id none tokenContext "app" (some "/x/app.old") ["TOKEN"] isValidVarName_token
    oldStoreWorld "/x/app.old" rfl withoutExchange fun _ => rfl
  rw [hgone] at hsafe
  exact absurd (hsafe.1 rfl) Bool.false_ne_true

end Atomic

end Shellflow
