import Mathlib.Data.List.DropRight
import Mathlib.Logic.Function.Basic
import Shellflow.Dsl.Plan
import Shellflow.Lib.AndOr
import Shellflow.Lib.Leftmost
import Shellflow.Mask.Ranges

/-! The release step: the newest tag of a repository is compared with what the installed binary prints,
and on a difference the asset is downloaded and its executable files are installed. -/
namespace Shellflow.Release
open AndOr Leftmost

/-- A file at the top of the extracted archive. -/
structure Entry where
  name : Text
  regular : Bool
  executable : Bool
  content : Text
deriving DecidableEq

/-- How a copy ends: with the whole file, executable or not, or broken off, perhaps with a part of
it written. -/
inductive CopyOutcome where
  | done (executable : Bool)
  | failed (part : Option Text)
deriving DecidableEq

/-- A file that is not whole was left half written. -/
structure File where
  content : Text
  executable : Bool
  whole : Bool
deriving DecidableEq

/-- What stands under a name of the target directory. -/
inductive Node where
  | directory
  | file (f : File)
deriving DecidableEq

abbrev Files := Text → Option Node

def Node.markExecutable : Node → Node
  | directory => directory
  | file f => file { f with executable := true }

/-- The files at the top of an archive. No two names differ in the ends of lines behind them alone. -/
structure Archive where
  entries : List Entry
  distinct : (entries.map fun e => e.name.rdropWhile (· == '\n')).Nodup

/-- What the machine answers: the headers and the page of the latest release, the output of the
binary for a flag it accepts, the output and the status of a full command, and how every command of
the installation ends. -/
structure Machine where
  redirect : Text
  api : Text
  answers : String → Option Text
  command : Text × Nat
  mktemp : Bool
  download : Text → Bool
  extracted : Option Archive
  copy : Text → CopyOutcome
  rename : Text → Bool
  chmod : Text → Bool
  files : Files

def textLines (s : Text) : List Text := s.splitOn '\n'

def trimNewlines (s : Text) : Text := s.rdropWhile (· == '\n')

section Resolve

/-- `v[0-9][0-9.]*` -/
def isTag : Text → Bool
  | 'v' :: c :: rest => isDigit c && rest.all fun d => isDigit d || d == '.'
  | _ => false

/-- `tr -d '\r' | grep -i '^location:' | tail -1` -/
def location (headers : Text) : Text :=
  (((textLines (headers.filter fun c => c != '\r')).filter fun l =>
    "location:".toList.isPrefixOf (l.map Str.asciiLower)).getLast?).getD []

/-- `sed -n 's#.*/tag/\(v[0-9][0-9.]*\)$#\1#p'` -/
def redirectTag (line : Text) : Text :=
  let tag := line.rtakeWhile fun c => c != '/'
  if isTag tag && "/tag/".toList.isSuffixOf (line.rdropWhile fun c => c != '/') then tag else []

def isSpace (c : Char) : Bool := c ∈ [' ', '\t', '\r', '\x0b', '\x0c']

/-- The tag of a field `"tag_name"` that begins here. -/
def tagField (s : Text) : Option Text :=
  ("\"tag_name\"".toList.isPrefixOf? s).bind fun s =>
    match s.dropWhile isSpace with
    | ':' :: s =>
      match s.dropWhile isSpace with
      | '"' :: s =>
        let tag := s.takeWhile fun c => c != '"'
        if isTag tag && tag.length < s.length then some tag else none
      | _ => none
    | _ => none

/-- The last such field of a line, and of the lines the first. -/
def apiTag (page : Text) : Text :=
  ((textLines page).findSome? fun line => line.tails.reverse.findSome? tagField).getD []

def sfwLatestTag (machine : Machine) : Text :=
  let tag := redirectTag (location machine.redirect)
  if tag ≠ [] then tag else apiTag machine.api

end Resolve

section Compare
variable (release : ReleaseStep) (machine : Machine)

def versionFlags : List String := ["--version", "-V", "-v", "-version", "version"]

/-- What the probe reads: a bare path is tried with the flags one by one, a command with a blank in
it runs as it is. -/
def probeOutput : Option Text :=
  if ' ' ∈ release.installedCmd.toList then
    if 126 ≤ machine.command.2 then none else some (trimNewlines machine.command.1)
  else some (trimNewlines ((versionFlags.findSome? machine.answers).getD []))

/-- `grep -oE 'v?[0-9]+\.[0-9]+\.[0-9]+' | head -1` -/
def sfwProbe : Text :=
  match probeOutput release machine with
  | none => []
  | some out => ((textLines out).findSome? (leftmost (accepts versionPattern))).getD []

/-- `sed 's/^v//'` -/
def stripV : Text → Text
  | 'v' :: s => s
  | s => s

inductive Verdict where
  | skipped
  | upToDate
  | update (tag : Text)
deriving DecidableEq

def verdict : Verdict :=
  if sfwLatestTag machine = [] then .skipped
  else if sfwProbe release machine ≠ [] ∧
      stripV (sfwProbe release machine) = stripV (sfwLatestTag machine) then .upToDate
  else .update (sfwLatestTag machine)

end Compare

section Install
variable (machine : Machine)

/-- The state of the loop: the target directory, the files counted and the lines said. -/
structure Progress where
  files : Files
  n : Nat
  said : List Text

def Progress.put (p : Progress) (name : Text) (node : Option Node) : Progress :=
  { p with files := Function.update p.files name node }

@[simp] theorem Progress.files_put (p : Progress) (name : Text) (node : Option Node) :
    (p.put name node).files = Function.update p.files name node := rfl

@[simp] theorem Progress.n_put (p : Progress) (name : Text) (node : Option Node) :
    (p.put name node).n = p.n := rfl

/-- `b=$(basename "$f")`: the ends of lines at the end of the name are lost. -/
def baseName (e : Entry) : Text := trimNewlines e.name

def stagingName (e : Entry) : Text := '.' :: (baseName e ++ ".new".toList)

def installedLine (e : Entry) : Text := "installed ".toList ++ baseName e

/-- A directory under the name takes the copy in. -/
def cpFile (e : Entry) : Command Progress := fun p =>
  match machine.copy e.name with
  | .failed none => ⟨1, false, p⟩
  | .failed (some part) =>
    if p.files (stagingName e) = some .directory then ⟨1, false, p⟩
    else ⟨1, false, p.put (stagingName e) (some (.file ⟨part, false, false⟩))⟩
  | .done executable =>
    if p.files (stagingName e) = some .directory then ⟨0, false, p⟩
    else ⟨0, false, p.put (stagingName e) (some (.file ⟨e.content, executable, true⟩))⟩

/-- A directory under the new name takes in what is moved; a directory does not replace a file. -/
def mvFile (e : Entry) : Command Progress := fun p =>
  if machine.rename e.name = false ∨ baseName e = [] then ⟨1, false, p⟩
  else
    match p.files (stagingName e), p.files (baseName e) with
    | none, _ => ⟨1, false, p⟩
    | some _, some .directory => ⟨0, false, p.put (stagingName e) none⟩
    | some .directory, some (.file _) => ⟨1, false, p⟩
    | some node, _ => ⟨0, false, (p.put (stagingName e) none).put (baseName e) (some node)⟩

def chmodFile (e : Entry) : Command Progress := fun p =>
  if machine.chmod e.name then
    ⟨0, false, p.put (baseName e) ((p.files (baseName e)).map Node.markExecutable)⟩
  else ⟨1, false, p⟩

def count : Command Progress := fun p => ⟨0, false, { p with n := p.n + 1 }⟩

def echo (line : Text) : Command Progress := fun p => ⟨0, false, { p with said := p.said ++ [line] }⟩

/-- The body of the loop; `continue` ends it. -/
def installFile (e : Entry) : Command Progress :=
  call (seq (orElse (andThen (test e.regular) (test e.executable)) (ret 0))
    (andThen (andThen (andThen (andThen (cpFile machine e) (mvFile machine e)) (chmodFile machine e))
      count) (echo (installedLine e))))

/-- `"$TMP"/*` leaves out the names with a dot in front. -/
def globbed (entries : List Entry) : List Entry := entries.filter fun e => e.name.head? != some '.'

def installAll (entries : List Entry) (p : Progress) : Progress :=
  (globbed entries).foldl (fun p e => (installFile machine e p).state) p

variable {machine} (e : Entry) (p : Progress)

@[simp] theorem returned_cpFile : (cpFile machine e p).returned = false := by
  unfold cpFile
  split
  · rfl
  · split <;> rfl
  · split <;> rfl

@[simp] theorem returned_mvFile : (mvFile machine e p).returned = false := by
  unfold mvFile
  split
  · rfl
  · split <;> rfl

@[simp] theorem returned_chmodFile : (chmodFile machine e p).returned = false := by
  unfold chmodFile
  split <;> rfl

/-- A file that is copied, renamed and made executable is counted and reported. -/
def counted (e : Entry) (p : Progress) : Progress :=
  { p with n := p.n + 1, said := p.said ++ [installedLine e] }

/-- What the loop does with one file. -/
theorem installFile_state : (installFile machine e p).state =
    if e.regular && e.executable then
      let copied := cpFile machine e p
      let moved := mvFile machine e copied.state
      let changed := chmodFile machine e moved.state
      if copied.status = 0 then
        if moved.status = 0 then
          if changed.status = 0 then counted e changed.state else changed.state
        else moved.state
      else copied.state
    else p := by
  by_cases hlisted : (e.regular && e.executable) = true
  · obtain ⟨hregular, hexecutable⟩ := Bool.and_eq_true_iff.mp hlisted
    rw [if_pos hlisted]
    simp only [installFile, call, seq, orElse, andThen, test, hregular, hexecutable, returned_cpFile,
      count, echo, counted, Bool.false_or, Bool.or_self, if_true,
      bne_self_eq_false, beq_self_eq_true, Bool.or_true, Bool.false_eq_true, if_false, bne_iff_ne]
    by_cases hcopied : (cpFile machine e p).status = 0
    · by_cases hmoved : (mvFile machine e (cpFile machine e p).state).status = 0
      · by_cases hchanged :
          (chmodFile machine e (mvFile machine e (cpFile machine e p).state).state).status = 0
        · simp [hcopied, hmoved, hchanged]
        · simp [hcopied, hmoved, hchanged]
      · simp [hcopied, hmoved]
    · simp [hcopied]
  · rw [if_neg hlisted]
    cases hregular : e.regular <;> cases hexecutable : e.executable <;>
      simp [installFile, call, seq, orElse, andThen, test, hregular, hexecutable] at hlisted ⊢

end Install

section Run

structure Report where
  status : Nat
  said : List Text
  downloads : List Text
  files : Files

variable (release : ReleaseStep) (machine : Machine)

def base : String := release.baseUrl.getD s!"https://github.com/{release.repo}/releases/download"

/-- `sed "s/\x7btag\x7d/$TAG/g; s/\x7bversion\x7d/$VER/g"` -/
def assetFile (tag : Text) : String :=
  Str.replace (Str.replace release.asset "\x7btag\x7d" (String.ofList tag)) "\x7bversion\x7d"
    (String.ofList (stripV tag))

def assetUrl (tag : Text) : Text :=
  (base release ++ "/" ++ String.ofList tag ++ "/" ++ assetFile release tag).toList

def orUnknown (s : Text) : Text := if s = [] then "unknown".toList else s

def versionsLine : Text :=
  "installed=".toList ++ orUnknown (sfwProbe release machine) ++ " latest=".toList ++
    orUnknown (sfwLatestTag machine)

def updatingLine (tag : Text) : Text :=
  "updating to ".toList ++ tag ++ " (".toList ++ (assetFile release tag).toList ++ ")".toList

def unresolvedLine : Text := "could not resolve the latest release; skipping".toList

def upToDateLine : Text := "already up to date".toList

def downloadFailedLine : Text := "download failed".toList

def extractionFailedLine : Text := "extraction failed".toList

def noExecutableLine : Text := "no executable found in the asset".toList

/-- Download, extraction and installation. -/
def update (tag : Text) : Report :=
  let said := [versionsLine release machine, updatingLine release tag]
  let url := assetUrl release tag
  if machine.mktemp = false then ⟨1, said, [], machine.files⟩
  else if machine.download url = false then ⟨1, said ++ [downloadFailedLine], [url], machine.files⟩
  else
    match machine.extracted with
    | none => ⟨1, said ++ [extractionFailedLine], [url], machine.files⟩
    | some archive =>
      let p := installAll machine archive.entries ⟨machine.files, 0, said⟩
      if p.n = 0 then ⟨1, p.said ++ [noExecutableLine], [url], p.files⟩
      else ⟨0, p.said, [url], p.files⟩

def releaseCommand : Report :=
  match verdict release machine with
  | .skipped => ⟨0, [versionsLine release machine, unresolvedLine], [], machine.files⟩
  | .upToDate => ⟨0, [versionsLine release machine, upToDateLine], [], machine.files⟩
  | .update tag => update release machine tag

end Run

end Shellflow.Release
