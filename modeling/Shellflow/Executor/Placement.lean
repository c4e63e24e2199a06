import Shellflow.Executor.Copy

/-! Where a transfer puts its files on the target, by rsync and by the scp fallback: the directory
that is made first, and the path each file ends at. -/
namespace Shellflow.Placement

abbrev RemotePath := List String

/-- The target before a transfer. A name in front that starts with a tilde stands for a home
directory to the transfer tools; `mkdir` gets it quoted. -/
structure Remote where
  home : RemotePath
  isDir : RemotePath → Bool
  isFile : RemotePath → Bool
  tilde : String → Option RemotePath
  entered : ∀ q, q <+: home → isFile q = false
  tilde_apart : ∀ name there, tilde name = some there → ¬ home ++ [name] <+: there

namespace Remote
variable (r : Remote)

/-- What a path names for a command that starts in the home directory. -/
def locate (path : String) : RemotePath :=
  (if Str.startsWith path "/" then [] else r.home) ++ pathParts path

/-- The home directory that a path starts with, and its other components. -/
def expansion (path : String) : Option RemotePath :=
  if Str.startsWith path "~" then
    match pathParts path with
    | [] => none
    | first :: rest => (r.tilde first).map fun there => there ++ rest
  else none

/-- What a path names for the transfer tools. -/
def locateRemote (path : String) : RemotePath := (r.expansion path).getD (r.locate path)

/-- `mkdir -p` fails on the way over a file. -/
def blocked (made : RemotePath) : Bool := made.inits.any r.isFile

def isDirAfter (made q : RemotePath) : Bool := q.isPrefixOf made || r.isDir q

end Remote

/-- A source whose contents are copied. -/
def isContents (src : String) : Bool := Str.endsWith src "/" || Str.endsWith src "/."

/-- Where a source ends: in a directory that is named as one or that is there, under its own name,
and else at the destination itself. -/
def landing (r : Remote) (made : RemotePath) (dst src : String) : RemotePath :=
  let there := r.locateRemote dst
  if isContents src then there
  else if Str.endsWith dst "/" || r.isDirAfter made there then there ++ [baseName src]
  else there

structure Placed where
  created : RemotePath
  landed : List RemotePath
deriving DecidableEq

/-- The directory is made, and then the sources are sent. -/
def place (r : Remote) (dir dst : String) (srcs : List String) : Option Placed :=
  let created := r.locate dir
  if r.blocked created then none else some ⟨created, srcs.map (landing r created dst)⟩

def trimSlashes (path : String) : String := String.ofList (path.toList.rdropWhile (· == '/'))

/-- A directory that travels alone has its contents copied. -/
def normalizeCopyPaths (isDir : String → Bool) (srcs : List String) (dst : String) :
    List String × String :=
  match srcs with
  | [src] => if isDir src then ([trimSlashes src ++ "/"], trimSlashes dst ++ "/") else (srcs, dst)
  | _ => (srcs, dst)

/-- The directory that the rsync transfer makes. -/
def rsyncDir (dst : String) : String :=
  if Str.endsWith dst "/" then dst
  else
    match Str.rsplitOnceChar dst '/' with
    | some (dir, file) => if file ≠ "" ∧ dir ≠ "" then dir else dst
    | none => dst

def runRsyncTransfer (r : Remote) (isDir : String → Bool) (t : Transfer) : Option Placed :=
  let (srcs, dst) := normalizeCopyPaths isDir t.srcs t.dst
  place r (rsyncDir dst) dst srcs

/-- The directory that the scp transfer makes, and whether the destination is that directory. -/
def scpRemoteDir (dst : String) (isDirSrc : Bool) : String × Bool :=
  if isDirSrc || Str.endsWith dst "/" then
    let trimmed := trimSlashes dst
    (if trimmed = "" then "/" else trimmed, true)
  else
    match Str.rsplitOnceChar dst '/' with
    | some (dir, file) =>
      if file ≠ "" ∧ dir ≠ "" then (dir, false)
      else if file ≠ "" ∧ dir = "" then ("/", false)
      else (".", false)
    | none => (".", false)

def runScpTransfer (r : Remote) (isDir : String → Bool) (t : Transfer) : Option Placed :=
  let first := t.srcs.head?.getD ""
  let (dir, dstIsDir) := scpRemoteDir t.dst (isDir first)
  let srcs := if t.srcs.length = 1 ∧ isDir first then [first ++ "/."] else t.srcs
  place r dir (if dstIsDir then dir ++ "/" else t.dst) srcs

/-- What was made is the directory around every file, and no file itself. -/
def ProperlyMade (placed : Option Placed) : Prop :=
  ∀ p, placed = some p → ∀ path ∈ p.landed, path.dropLast = p.created ∧ path ≠ p.created

def PlacedAlike (r : Remote) (isDir : String → Bool) (t : Transfer) : Prop :=
  (runRsyncTransfer r isDir t).map Placed.landed = (runScpTransfer r isDir t).map Placed.landed ∧
    ProperlyMade (runRsyncTransfer r isDir t) ∧ ProperlyMade (runScpTransfer r isDir t)

section Paths
variable (r : Remote)

theorem endsWith_slash_iff {s : String} :
    Str.endsWith s "/" = true ↔ ∃ front, s = front ++ "/" := by
  rw [Str.endsWith, List.isSuffixOf_iff_suffix]
  constructor
  · intro h
    obtain ⟨front, hfront⟩ := h
    exact ⟨String.ofList front, String.toList_inj.mp (by simpa using hfront.symm)⟩
  · intro h
    obtain ⟨front, hfront⟩ := h
    exact ⟨front.toList, by simp [hfront]⟩

theorem pathParts_append_slash (front : String) : pathParts (front ++ "/") = pathParts front := by
  have h := pathParts_concat front ""
  rwa [String.append_empty, show pathParts "" = [] from rfl, List.append_nil] at h

theorem pathParts_append_dot (front : String) : pathParts (front ++ "/" ++ ".") = pathParts front := by
  have hdot : pathParts "." = [] := by decide
  rw [pathParts_concat, hdot, List.append_nil]

/-- Two spellings of one path. -/
structure Alike (s t : String) : Prop where
  root : Str.startsWith s "/" = Str.startsWith t "/"
  tilde : Str.startsWith s "~" = Str.startsWith t "~"
  parts : pathParts s = pathParts t

namespace Alike
variable {s t : String}

theorem trans {u : String} (h : Alike s t) (h' : Alike t u) : Alike s u :=
  ⟨h.root.trans h'.root, h.tilde.trans h'.tilde, h.parts.trans h'.parts⟩

theorem locate (h : Alike s t) : r.locate s = r.locate t := by
  rw [Remote.locate, Remote.locate, h.root, h.parts]

theorem locateRemote (h : Alike s t) : r.locateRemote s = r.locateRemote t := by
  rw [Remote.locateRemote, Remote.locateRemote, Remote.expansion, Remote.expansion, h.locate r,
    h.tilde, h.parts]

end Alike

/-- A nonempty text starts as it did, whatever follows. -/
theorem startsWith_append {s : String} (hs : s ≠ "") (t : String) {pat : String} {c : Char}
    (hpat : pat.toList = [c]) : Str.startsWith (s ++ t) pat = Str.startsWith s pat := by
  cases hchars : s.toList with
  | nil => exact absurd (String.toList_inj.mp hchars) hs
  | cons d rest => simp [Str.startsWith, hpat, hchars, List.isPrefixOf]

theorem alike_slash {s : String} (hs : s ≠ "") : Alike (s ++ "/") s where
  root := startsWith_append hs "/" rfl
  tilde := startsWith_append hs "/" rfl
  parts := pathParts_append_slash s

theorem alike_trim {l : List Char} (hl : l ≠ []) :
    Alike (if String.ofList (l.rdropWhile (· == '/')) = "" then "/"
      else String.ofList (l.rdropWhile (· == '/'))) (String.ofList l) := by
  induction l using List.reverseRecOn with
  | nil => exact absurd rfl hl
  | append_singleton front c ih =>
    by_cases hc : c = '/'
    · rw [List.rdropWhile_concat_pos _ _ _ (by simp [hc])]
      cases front with
      | nil => rw [hc]; exact ⟨rfl, rfl, rfl⟩
      | cons d front =>
        have hne : String.ofList (d :: front) ≠ "" := by
          intro h
          exact absurd (congrArg String.toList h) (by simp)
        have htext : String.ofList (d :: front ++ [c]) = String.ofList (d :: front) ++ "/" := by
          apply String.toList_inj.mp
          simp [hc]
        rw [htext]
        have hslash := alike_slash hne
        exact (ih (List.cons_ne_nil d front)).trans
          ⟨hslash.root.symm, hslash.tilde.symm, hslash.parts.symm⟩
    · rw [List.rdropWhile_concat_neg _ _ _ (by simp [hc])]
      have hne : String.ofList (front ++ [c]) ≠ "" := by
        intro h
        exact absurd (congrArg String.toList h) (by simp)
      rw [if_neg hne]
      exact ⟨rfl, rfl, rfl⟩

/-- Without its trailing slashes, or with one, a path is the same; the root keeps its own. -/
theorem alike_scpDir {dst : String} (hdst : dst ≠ "") :
    Alike (if trimSlashes dst = "" then "/" else trimSlashes dst) dst := by
  have hl : dst.toList ≠ [] := fun h => hdst (String.toList_inj.mp h)
  have halike := alike_trim hl
  rw [String.ofList_toList] at halike
  exact halike

theorem scpDir_ne_empty (dst : String) :
    (if trimSlashes dst = "" then "/" else trimSlashes dst) ≠ "" := by
  split
  · decide
  · assumption

end Paths

section Tilde
variable (r : Remote)

theorem length_there {name : String} {there rest : RemotePath} (h : r.tilde name = some there)
    (hpre : r.home ++ [name] <+: there ++ rest) : there.length ≤ r.home.length := by
  by_contra hlong
  have hlen : (r.home ++ [name]).length ≤ there.length := by simp; omega
  exact r.tilde_apart name there h
    (List.prefix_of_prefix_length_le hpre (List.prefix_append there rest) hlen)

/-- A path that starts in another home directory is not what it spells, nor directly in it. -/
theorem there_ne {name : String} {there : RemotePath} (h : r.tilde name = some there)
    (rest : RemotePath) :
    there ++ rest ≠ r.home ++ name :: rest ∧ (there ++ rest).dropLast ≠ r.home ++ name :: rest := by
  constructor
  · intro heq
    have hlen := congrArg List.length heq
    have hshort : there.length ≤ r.home.length :=
      length_there r h (by rw [heq]; exact ⟨rest, by simp⟩)
    simp at hlen
    omega
  · intro heq
    have hlen := congrArg List.length heq
    have hpre : r.home ++ [name] <+: (there ++ rest).dropLast := by rw [heq]; exact ⟨rest, by simp⟩
    have hshort := length_there r h (hpre.trans (List.dropLast_prefix _))
    simp at hlen
    omega

end Tilde

section Place
variable (r : Remote) {isDir : String → Bool}

/-- A source that is a file. -/
def IsFile (isDir : String → Bool) (src : String) : Prop := isDir src = false ∧ isContents src = false

/-- A file sent to the destination ends directly in the directory that was made. -/
def Direct (made there : RemotePath) (slash : Bool) : Prop :=
  if slash || r.isDirAfter made there then there = made else there.dropLast = made ∧ there ≠ made

theorem properly_landed_iff {made : RemotePath} {dst src : String} (hsrc : isContents src = false) :
    ((landing r made dst src).dropLast = made ∧ landing r made dst src ≠ made) ↔
      Direct r made (r.locateRemote dst) (Str.endsWith dst "/") := by
  rw [landing, Direct, if_neg (by simp [hsrc])]
  by_cases hdir : (Str.endsWith dst "/" || r.isDirAfter made (r.locateRemote dst)) = true
  · rw [if_pos hdir, if_pos hdir, List.dropLast_concat]
    constructor
    · exact fun h => h.1
    · intro h
      refine ⟨h, fun hsame => ?_⟩
      have hlen := congrArg List.length (hsame.trans h.symm)
      simp at hlen
  · rw [if_neg hdir, if_neg hdir]

theorem properlyMade_iff {dir dst : String} {srcs : List String} (hne : srcs ≠ [])
    (hsrcs : ∀ src ∈ srcs, isContents src = false) :
    ProperlyMade (place r dir dst srcs) ↔ r.blocked (r.locate dir) = true ∨
      Direct r (r.locate dir) (r.locateRemote dst) (Str.endsWith dst "/") := by
  cases hblocked : r.blocked (r.locate dir) with
  | true => simp [ProperlyMade, place, hblocked]
  | false =>
    have hall : ProperlyMade (place r dir dst srcs) ↔ ∀ src ∈ srcs,
        Direct r (r.locate dir) (r.locateRemote dst) (Str.endsWith dst "/") := by
      constructor
      · intro h src hsrc
        rw [← properly_landed_iff r (hsrcs src hsrc)]
        exact h _ (by simp [place, hblocked]; rfl) _ (List.mem_map_of_mem hsrc)
      · intro h p hp path hpath
        have hplaced : p = ⟨r.locate dir, srcs.map (landing r (r.locate dir) dst)⟩ := by
          simpa [place, hblocked] using hp.symm
        rw [hplaced] at hpath ⊢
        obtain ⟨src, hsrc, rfl⟩ := List.mem_map.mp hpath
        exact (properly_landed_iff r (hsrcs src hsrc)).mpr (h src hsrc)
    obtain ⟨first, hfirst⟩ := List.exists_mem_of_ne_nil srcs hne
    rw [hall]
    simp only [Bool.false_eq_true, false_or]
    exact ⟨fun h => h first hfirst, fun h _ _ => h⟩

theorem place_congr {dir dir' dst dst' : String} {srcs : List String} (hdir : Alike dir dir')
    (hdst : Alike dst dst') (hslash : Str.endsWith dst "/" = Str.endsWith dst' "/") :
    place r dir dst srcs = place r dir' dst' srcs := by
  have hland : ∀ made, landing r made dst = landing r made dst' := by
    intro made
    funext src
    rw [landing, landing, hdst.locateRemote r, hslash]
  rw [place, place, hdir.locate r, hland]

end Place

/-- The text that names the directory, for a destination that has one of its own. -/
def dirText (dst : String) : Option String :=
  if Str.endsWith dst "/" then some dst
  else
    match Str.rsplitOnceChar dst '/' with
    | some (dir, file) => if file ≠ "" ∧ dir ≠ "" then some dir else none
    | none => none

/-- The destinations at which both tools do what is meant. -/
def Clean (r : Remote) (dst : String) : Prop :=
  match dirText dst with
  | some dir =>
    r.blocked (r.locate dir) = true ∨
      (if r.expansion dst = none then
        Str.endsWith dst "/" = true ∨ baseName dst = "." ∨ r.isDir (r.locate dst) = false
      else Str.endsWith dst "/" = false ∧ r.locateRemote dst = r.locate dir)
  | none => dst = "." ∨ dst = "/."

/-- What a group of entries makes of its files: one of them, or several for a directory. -/
structure Grouped (isDir : String → Bool) (t : Transfer) : Prop where
  nonempty : t.srcs ≠ []
  files : ∀ src ∈ t.srcs, IsFile isDir src
  several : t.srcs.length = 1 ∨ Str.endsWith t.dst "/" = true
  dst : t.dst ≠ ""

section Transfers
variable (r : Remote) {isDir : String → Bool} {t : Transfer}

theorem Grouped.rsync (h : Grouped isDir t) :
    runRsyncTransfer r isDir t = place r (rsyncDir t.dst) t.dst t.srcs := by
  have hpaths : normalizeCopyPaths isDir t.srcs t.dst = (t.srcs, t.dst) := by
    cases hsrcs : t.srcs with
    | nil => rfl
    | cons src more =>
      have hfile := (h.files src (by simp [hsrcs])).1
      cases more with
      | nil => simp [normalizeCopyPaths, hfile]
      | cons _ _ => rfl
  rw [runRsyncTransfer, hpaths]

theorem Grouped.scp (h : Grouped isDir t) :
    runScpTransfer r isDir t = place r (scpRemoteDir t.dst false).1
      (if (scpRemoteDir t.dst false).2 then (scpRemoteDir t.dst false).1 ++ "/" else t.dst) t.srcs := by
  cases hsrcs : t.srcs with
  | nil => exact absurd hsrcs h.nonempty
  | cons src more =>
    have hfile := (h.files src (by simp [hsrcs])).1
    simp [runScpTransfer, hsrcs, hfile]

/-- A destination with a directory of its own is the same to both. -/
theorem Grouped.alike_iff (h : Grouped isDir t) {dir : String} (hdir : dirText t.dst = some dir) :
    PlacedAlike r isDir t ↔ r.blocked (r.locate dir) = true ∨
      Direct r (r.locate dir) (r.locateRemote t.dst) (Str.endsWith t.dst "/") := by
  have hboth : runRsyncTransfer r isDir t = place r dir t.dst t.srcs ∧
      runScpTransfer r isDir t = place r dir t.dst t.srcs := by
    rw [h.rsync, h.scp]
    cases hslash : Str.endsWith t.dst "/" with
    | true =>
      have hsame : t.dst = dir := by simpa [dirText, hslash] using hdir
      have halike := alike_scpDir h.dst
      have hends : Str.endsWith ((if trimSlashes t.dst = "" then "/" else trimSlashes t.dst) ++ "/")
          "/" = true := endsWith_slash_iff.mpr ⟨_, rfl⟩
      have hscp : scpRemoteDir t.dst false =
          (if trimSlashes t.dst = "" then "/" else trimSlashes t.dst, true) := by
        simp [scpRemoteDir, hslash]
      rw [hscp, ← hsame]
      refine ⟨by simp [rsyncDir, hslash], place_congr r halike ?_ (hends.trans hslash.symm)⟩
      exact (alike_slash (scpDir_ne_empty t.dst)).trans halike
    | false =>
      cases hsplit : Str.rsplitOnceChar t.dst '/' with
      | none => simp [dirText, hslash, hsplit] at hdir
      | some parts =>
        have hparts : parts.2 ≠ "" ∧ parts.1 ≠ "" := by
          by_contra hno
          simp [dirText, hslash, hsplit, hno] at hdir
        have hsame : parts.1 = dir := by simpa [dirText, hslash, hsplit, hparts] using hdir
        simp [rsyncDir, scpRemoteDir, hslash, hsplit, hparts, ← hsame]
  have hproper : ProperlyMade (place r dir t.dst t.srcs) ↔ r.blocked (r.locate dir) = true ∨
      Direct r (r.locate dir) (r.locateRemote t.dst) (Str.endsWith t.dst "/") :=
    properlyMade_iff r h.nonempty fun src hsrc => (h.files src hsrc).2
  rw [PlacedAlike, hboth.1, hboth.2, hproper]
  simp

end Transfers

section Clean
variable (r : Remote)

theorem isDirAfter_self (made : RemotePath) : r.isDirAfter made made = true := by
  simp [Remote.isDirAfter]

theorem isDirAfter_below (made : RemotePath) (base : String) :
    r.isDirAfter made (made ++ [base]) = r.isDir (made ++ [base]) := by
  have hnot : (made ++ [base]).isPrefixOf made = false := by
    cases hpre : (made ++ [base]).isPrefixOf made with
    | false => rfl
    | true =>
      have hlen := (List.isPrefixOf_iff_prefix.mp hpre).length_le
      exact absurd hlen (by simp)
  rw [Remote.isDirAfter, hnot, Bool.false_or]

theorem locateRemote_of_none {dst : String} (h : r.expansion dst = none) :
    r.locateRemote dst = r.locate dst := by rw [Remote.locateRemote, h, Option.getD_none]

/-- A path in another home directory, by its first component. -/
theorem expansion_some {dst : String} {there : RemotePath} (h : r.expansion dst = some there) :
    ∃ name home rest, pathParts dst = name :: rest ∧ r.tilde name = some home ∧
      r.locateRemote dst = home ++ rest ∧ Str.startsWith dst "~" = true ∧
      r.locate dst = r.home ++ name :: rest := by
  have hremote : r.locateRemote dst = there := by rw [Remote.locateRemote, h, Option.getD_some]
  rw [Remote.expansion] at h
  by_cases htilde : Str.startsWith dst "~" = true
  · rw [if_pos htilde] at h
    cases hparts : pathParts dst with
    | nil => simp [hparts] at h
    | cons name rest =>
      rw [hparts] at h
      obtain ⟨home, hhome, hrest⟩ := Option.map_eq_some_iff.mp h
      have hroot : Str.startsWith dst "/" = false := by
        cases hchars : dst.toList with
        | nil => simp [Str.startsWith, hchars]
        | cons c chars =>
          have hc : '~' = c := by simpa [Str.startsWith, hchars, List.isPrefixOf] using htilde
          simp [Str.startsWith, hchars, List.isPrefixOf, ← hc]
      exact ⟨name, home, rest, rfl, hhome, by rw [hremote, ← hrest], htilde,
        by rw [Remote.locate, hroot, hparts]; rfl⟩
  · rw [if_neg htilde] at h
    exact absurd h nofun

theorem direct_slash_iff (dst : String) :
    Direct r (r.locate dst) (r.locateRemote dst) true ↔ r.expansion dst = none := by
  rw [Direct, Bool.true_or, if_pos rfl]
  cases h : r.expansion dst with
  | none => simp [locateRemote_of_none r h]
  | some there =>
    obtain ⟨name, home, rest, -, hhome, hremote, -, hlocate⟩ := expansion_some r h
    simp [hremote, hlocate, (there_ne r hhome rest).1]

theorem pathParts_ne_nil {s : String} (h : Str.startsWith s "~" = true) : pathParts s ≠ [] := by
  cases hchars : s.toList with
  | nil => simp [Str.startsWith, hchars] at h
  | cons c rest =>
    have hc : '~' = c := by simpa [Str.startsWith, hchars, List.isPrefixOf] using h
    obtain ⟨more, hmore⟩ := Str.splitCharFrom_eq_cons '/' [] (c :: rest)
    have hfirst : String.ofList ([].reverse ++ (c :: rest).takeWhile (· != '/')) ∈ pathParts s := by
      rw [pathParts, Str.splitChar, hchars, hmore, List.map_cons, ← hc]
      apply List.mem_filter.mpr
      refine ⟨List.mem_cons_self, ?_⟩
      simp [List.takeWhile, ← String.toList_inj]
    exact List.ne_nil_of_mem hfirst

/-- A destination in a directory: its last component and what stands before it. -/
structure InDir (dst dir base : String) : Prop where
  text : dst = dir ++ "/" ++ base
  within : dir ≠ ""
  named : base ≠ ""
  bare : '/' ∉ base.toList

namespace InDir
variable {dst dir base : String}

theorem root (h : InDir dst dir base) : Str.startsWith dst "/" = Str.startsWith dir "/" := by
  rw [h.text, String.append_assoc]
  exact startsWith_append h.within _ rfl

theorem tilde (h : InDir dst dir base) : Str.startsWith dst "~" = Str.startsWith dir "~" := by
  rw [h.text, String.append_assoc]
  exact startsWith_append h.within _ rfl

theorem alike_dot (h : InDir dst dir ".") : Alike dst dir :=
  ⟨h.root, h.tilde, by rw [h.text, pathParts_append_dot]⟩

theorem parts (h : InDir dst dir base) (hdot : base ≠ ".") :
    pathParts dst = pathParts dir ++ [base] := by
  rw [h.text]
  exact pathParts_below dir ⟨h.named, hdot, h.bare⟩

theorem locate (h : InDir dst dir base) (hdot : base ≠ ".") :
    r.locate dst = r.locate dir ++ [base] := by
  rw [Remote.locate, Remote.locate, h.root, h.parts hdot, List.append_assoc]

theorem direct_dot_iff (h : InDir dst dir ".") :
    Direct r (r.locate dir) (r.locateRemote dst) false ↔
      (r.expansion dst ≠ none → r.locateRemote dst = r.locate dir) := by
  have hdir : r.locate dir = r.locate dst := (h.alike_dot.locate r).symm
  rw [hdir]
  cases hexp : r.expansion dst with
  | none => simp [Direct, locateRemote_of_none r hexp, isDirAfter_self]
  | some there =>
    obtain ⟨name, home, rest, -, hhome, hremote, -, hlocate⟩ := expansion_some r hexp
    have hne := there_ne r hhome rest
    rw [hremote, hlocate]
    simp [Direct, hne.1, hne.2]

theorem direct_iff (h : InDir dst dir base) (hdot : base ≠ ".") :
    Direct r (r.locate dir) (r.locateRemote dst) false ↔
      if r.expansion dst = none then r.isDir (r.locate dst) = false
      else r.locateRemote dst = r.locate dir := by
  cases hexp : r.expansion dst with
  | none =>
    rw [locateRemote_of_none r hexp, if_pos rfl, h.locate r hdot, Direct, isDirAfter_below]
    have hne : r.locate dir ++ [base] ≠ r.locate dir := by
      intro heq
      have hlen := congrArg List.length heq
      simp at hlen
    cases r.isDir (r.locate dir ++ [base]) <;> simp [hne]
  | some there =>
    obtain ⟨name, home, rest, hparts, hhome, hremote, htilde, hlocate⟩ := expansion_some r hexp
    have hbelow : ∃ rest', pathParts dir = name :: rest' ∧ rest = rest' ++ [base] := by
      rw [h.parts hdot] at hparts
      cases hdirParts : pathParts dir with
      | nil => exact absurd hdirParts (pathParts_ne_nil (h.tilde ▸ htilde))
      | cons first rest' =>
        rw [hdirParts, List.cons_append, List.cons.injEq] at hparts
        exact ⟨rest', by rw [hparts.1], hparts.2.symm⟩
    obtain ⟨rest', hdirParts, rfl⟩ := hbelow
    have hmade : r.locate dir = r.home ++ name :: rest' := by
      have hlong := h.locate r hdot
      rw [hlocate] at hlong
      exact (List.append_cancel_right (by simpa using hlong)).symm
    have hne := (there_ne r hhome rest').1
    have hparent : (home ++ (rest' ++ [base])).dropLast = home ++ rest' := by
      rw [← List.append_assoc, List.dropLast_concat]
    rw [hremote, hmade, if_neg (by simp), Direct, hparent]
    by_cases hsame : home ++ (rest' ++ [base]) = r.home ++ name :: rest'
    · simp [hsame, isDirAfter_self]
    · simp [hsame, hne]

end InDir

/-- The last component alone, in the home directory or at the root. -/
structure Bare (dst base : String) : Prop where
  text : dst = "/" ++ base ∨ dst = base
  named : base ≠ ""
  bare : '/' ∉ base.toList
  rsync : rsyncDir dst = dst
  scp : scpRemoteDir dst false = (if dst = base then "." else "/", false)

/-- The shapes of a destination: named as a directory, in a directory, or without one. -/
theorem dirText_cases {dst : String} (hdst : dst ≠ "") :
    (Str.endsWith dst "/" = true ∧ dirText dst = some dst) ∨
      (Str.endsWith dst "/" = false ∧ ∃ dir base, InDir dst dir base ∧ dirText dst = some dir ∧
        baseName dst = base) ∨
      (Str.endsWith dst "/" = false ∧ dirText dst = none ∧ ∃ base, Bare dst base) := by
  cases hslash : Str.endsWith dst "/" with
  | true => exact .inl ⟨rfl, by simp [dirText, hslash]⟩
  | false =>
    right
    cases hsplit : Str.rsplitOnceChar dst '/' with
    | none =>
      refine .inr ⟨rfl, by simp [dirText, hslash, hsplit], dst, .inr rfl, hdst,
        Str.notMem_of_rsplitOnceChar_none hsplit, by simp [rsyncDir, hslash, hsplit], ?_⟩
      simp [scpRemoteDir, hslash, hsplit]
    | some parts =>
      obtain ⟨dir, file⟩ := parts
      have htext : dst = dir ++ "/" ++ file := by
        rw [Str.rsplitOnceChar_eq_some hsplit, ← String.append_assoc]
        rfl
      have hbare := Str.notMem_of_rsplitOnceChar hsplit
      have hfile : file ≠ "" := by
        intro hempty
        have hends : Str.endsWith dst "/" = true := endsWith_slash_iff.mpr ⟨dir, by
          rw [htext, hempty, String.append_empty]⟩
        exact absurd (hslash.symm.trans hends) nofun
      by_cases hdir : dir = ""
      · have hroot : dst = "/" ++ file := by rw [htext, hdir]; simp
        have hne : dst ≠ file := by
          intro heq
          have hlen := congrArg (fun s => s.toList.length) (heq.symm.trans hroot)
          simp at hlen
        refine .inr ⟨rfl, by simp [dirText, hslash, hsplit, hdir], file, .inl hroot, hfile, hbare,
          by simp [rsyncDir, hslash, hsplit, hdir], ?_⟩
        simp [scpRemoteDir, hslash, hsplit, hdir, hfile, hne]
      · exact .inl ⟨rfl, dir, file, ⟨htext, hdir, hfile, hbare⟩,
          by simp [dirText, hslash, hsplit, hdir, hfile], by simp [baseName, hsplit]⟩

end Clean

section Bare
variable (r : Remote) {isDir : String → Bool} {t : Transfer} {base : String}

theorem not_blocked_of_entered {made : RemotePath} (h : made <+: r.home) :
    r.blocked made = false := by
  rw [Remote.blocked, List.any_eq_false]
  intro q hq
  have hfile := r.entered q (((List.mem_inits q made).mp hq).trans h)
  simp [hfile]

/-- What the fallback makes for a destination without a directory. -/
theorem Bare.scpDir (h : Bare t.dst base) (hdot : base ≠ ".") :
    r.locate t.dst = r.locate (scpRemoteDir t.dst false).1 ++ [base] ∧
      r.locate (scpRemoteDir t.dst false).1 <+: r.home := by
  have hpart : IsPart base := ⟨h.named, hdot, h.bare⟩
  rw [h.scp]
  by_cases hsame : t.dst = base
  · have hroot : Str.startsWith base "/" = false := by
      cases hchars : base.toList with
      | nil => simp [Str.startsWith, hchars]
      | cons c rest =>
        have hc : '/' ≠ c := fun heq => h.bare (by simp [hchars, ← heq])
        simp [Str.startsWith, hchars, List.isPrefixOf, hc]
    have hparts : pathParts base = [base] := by
      rw [pathParts, Str.splitChar, Str.splitCharFrom_of_notMem [] h.bare]
      simp [h.named, hdot]
    have hhome : r.locate "." = r.home := by
      rw [Remote.locate]
      have hnone : pathParts "." = [] := by decide
      simp [hnone, show Str.startsWith "." "/" = false by decide]
    rw [if_pos hsame, hhome, hsame]
    exact ⟨by rw [Remote.locate, hroot, hparts]; rfl, List.prefix_refl _⟩
  · have hdst : t.dst = "/" ++ base := h.text.resolve_right hsame
    have hparts := pathParts_below "" hpart
    have hempty : pathParts "" = [] := by decide
    rw [if_neg hsame]
    have hslash : r.locate "/" = [] := by
      rw [Remote.locate]
      have hnone : pathParts "/" = [] := by decide
      simp [hnone, show Str.startsWith "/" "/" = true by decide]
    rw [hslash, hdst]
    refine ⟨?_, List.nil_prefix⟩
    rw [Remote.locate, startsWith_append (by decide) base rfl]
    rw [hempty] at hparts
    simpa [show Str.startsWith "/" "/" = true by decide] using hparts

theorem bare_alike_dot (hg : Grouped isDir t) (h : Bare t.dst base)
    (hdot : t.dst = "." ∨ t.dst = "/.") : PlacedAlike r isDir t := by
  have hplain : Str.startsWith t.dst "~" = false ∧ Str.endsWith t.dst "/" = false ∧
      Alike t.dst (if t.dst = base then "." else "/") := by
    cases hdot with
    | inl hdot =>
      have hbase : t.dst = base := by
        refine h.text.resolve_left fun hroot => ?_
        have hlen := congrArg (fun s => s.toList.length) (hdot.symm.trans hroot)
        exact h.named (String.toList_inj.mp (List.length_eq_zero_iff.mp (by simpa using hlen)))
      rw [if_pos hbase, hdot]
      exact ⟨by decide, by decide, rfl, rfl, rfl⟩
    | inr hdot =>
      have hbase : t.dst ≠ base := fun heq => h.bare (by rw [← heq, hdot]; decide)
      rw [if_neg hbase, hdot]
      exact ⟨by decide, by decide, by decide, by decide, by decide⟩
  obtain ⟨htilde, hslash, halike⟩ := hplain
  have hthere : r.locateRemote t.dst = r.locate t.dst :=
    locateRemote_of_none r (by simp [Remote.expansion, htilde])
  have hproper : ProperlyMade (place r t.dst t.dst t.srcs) := by
    rw [properlyMade_iff r hg.nonempty fun src hsrc => (hg.files src hsrc).2]
    simp [Direct, hthere, isDirAfter_self]
  have hsame : place r (if t.dst = base then "." else "/") t.dst t.srcs =
      place r t.dst t.dst t.srcs :=
    (place_congr r halike ⟨rfl, rfl, rfl⟩ rfl).symm
  rw [PlacedAlike, hg.rsync, hg.scp, h.rsync, h.scp]
  simp only [Bool.false_eq_true, if_false]
  rw [hsame]
  exact ⟨rfl, hproper, hproper⟩

/-- Without a directory of its own a destination is made a directory by one of the tools. -/
theorem bare_not_alike (hg : Grouped isDir t) (h : Bare t.dst base)
    (hslash : Str.endsWith t.dst "/" = false) (hdot : base ≠ ".") : ¬ PlacedAlike r isDir t := by
  intro halike
  obtain ⟨hmade, hhome⟩ := h.scpDir r hdot
  have hopen := not_blocked_of_entered r hhome
  have hfiles := fun src hsrc => (hg.files src hsrc).2
  have hscp : runScpTransfer r isDir t = place r (scpRemoteDir t.dst false).1 t.dst t.srcs := by
    rw [hg.scp, h.scp]
    simp
  have hrsync : runRsyncTransfer r isDir t = place r t.dst t.dst t.srcs := by
    rw [hg.rsync, h.rsync]
  obtain ⟨hsame, hproper, hproper'⟩ := halike
  rw [hrsync] at hsame hproper
  rw [hscp] at hsame hproper'
  rw [properlyMade_iff r hg.nonempty hfiles, hslash] at hproper hproper'
  have hopen' : r.blocked (r.locate t.dst) = false := by
    by_contra hblocked
    simp [place, hblocked, hopen] at hsame
  have hdirect := hproper.resolve_left (by simp [hopen'])
  have hdirect' := hproper'.resolve_left (by simp [hopen])
  cases hexp : r.expansion t.dst with
  | none =>
    have hthere := locateRemote_of_none r hexp
    have hne : r.locate t.dst ≠ r.locate (scpRemoteDir t.dst false).1 := by
      rw [hmade]
      intro heq
      have hlen := congrArg List.length heq
      simp at hlen
    have hnoDir : r.isDirAfter (r.locate (scpRemoteDir t.dst false).1) (r.locate t.dst) = false := by
      by_contra hdir
      simp [Direct, hthere, hdir, hne] at hdirect'
    obtain ⟨first, hfirst⟩ := List.exists_mem_of_ne_nil t.srcs hg.nonempty
    have hlands : landing r (r.locate t.dst) t.dst first =
        landing r (r.locate (scpRemoteDir t.dst false).1) t.dst first := by
      have hlists : t.srcs.map (landing r (r.locate t.dst) t.dst) =
          t.srcs.map (landing r (r.locate (scpRemoteDir t.dst false).1) t.dst) := by
        simpa [place, hopen, hopen'] using hsame
      exact List.map_inj_left.mp hlists first hfirst
    have hlen := congrArg List.length hlands
    simp [landing, hfiles first hfirst, hslash, hthere, hnoDir, isDirAfter_self] at hlen
  | some there =>
    obtain ⟨name, home, rest, hparts, hname, hremote, -, hlocate⟩ := expansion_some r hexp
    have hne := there_ne r hname rest
    simp [Direct, hremote, hlocate, hne.1, hne.2] at hdirect

end Bare

section Entries
variable {isDir : String → Bool}

theorem grouped_add {t : Transfer} {src dir : String} (h : Grouped isDir t)
    (hsrc : IsFile isDir src) : Grouped isDir ⟨t.srcs ++ [src], dir ++ "/"⟩ where
  nonempty := List.append_ne_nil_of_right_ne_nil _ (List.cons_ne_nil _ _)
  files := by
    intro other hother
    cases List.mem_append.mp hother with
    | inl hold => exact h.files other hold
    | inr hnew => exact List.mem_singleton.mp hnew ▸ hsrc
  several := .inr (endsWith_slash_iff.mpr ⟨dir, rfl⟩)
  dst := by
    intro hempty
    have hlen := congrArg (fun s => s.toList.length) hempty
    simp at hlen

theorem grouped_one {src dst : String} (hsrc : IsFile isDir src) (hdst : dst ≠ "") :
    Grouped isDir ⟨[src], dst⟩ where
  nonempty := List.cons_ne_nil _ _
  files := by simpa using hsrc
  several := .inl rfl
  dst := hdst

theorem grouped_entry {g : Grouping} {entry : String × String}
    (hg : ∀ t ∈ g.transfers, Grouped isDir t) (hsrc : IsFile isDir entry.1) (hdst : entry.2 ≠ "") :
    ∀ t ∈ (groupEntry isDir g entry).transfers, Grouped isDir t := by
  have hnew : ∀ t ∈ g.transfers ++ [⟨[entry.1], entry.2⟩], Grouped isDir t := by
    intro t ht
    cases List.mem_append.mp ht with
    | inl hold => exact hg t hold
    | inr hone => exact List.mem_singleton.mp hone ▸ grouped_one hsrc hdst
  have hadd : ∀ i dir, ∀ t ∈ g.transfers.modify i fun t => ⟨t.srcs ++ [entry.1], dir ++ "/"⟩,
      Grouped isDir t := by
    intro i dir t ht
    obtain ⟨j, hj⟩ := List.mem_iff_getElem?.mp ht
    rw [List.getElem?_modify] at hj
    obtain ⟨old, hold, hmod⟩ := Option.map_eq_some_iff.mp hj
    have hmem := hg old (List.mem_of_getElem? hold)
    split at hmod
    · exact hmod ▸ grouped_add hmem hsrc
    · exact hmod ▸ hmem
  fun_cases groupEntry isDir g entry
  all_goals first | exact hnew | exact hadd _ _

/-- Every transfer that the entries are grouped into sends files, several of them to a directory. -/
theorem grouped_transfers {entries : List (String × String)}
    (hsrc : ∀ entry ∈ entries, IsFile isDir entry.1) (hdst : ∀ entry ∈ entries, entry.2 ≠ "") :
    ∀ t ∈ groupTransfers isDir entries, Grouped isDir t := by
  have hfold : ∀ (l : List (String × String)) (g : Grouping), (∀ t ∈ g.transfers, Grouped isDir t) →
      (∀ entry ∈ l, IsFile isDir entry.1 ∧ entry.2 ≠ "") →
      ∀ t ∈ (l.foldl (groupEntry isDir) g).transfers, Grouped isDir t := by
    intro l
    induction l with
    | nil => exact fun g hg _ => hg
    | cons entry l ih =>
      intro g hg hl
      obtain ⟨hentry, hl⟩ := List.forall_mem_cons.mp hl
      exact ih _ (grouped_entry hg hentry.1 hentry.2) hl
  exact hfold entries ⟨[], []⟩ (by simp) fun entry h => ⟨hsrc entry h, hdst entry h⟩

/-- Every transfer of a list of files puts them in the same place by both tools, with the directory
made around them, exactly where its destination is clean. -/
theorem placed_alike_iff (isDir : String → Bool) (entries : List (String × String))
    (hsrc : ∀ entry ∈ entries, IsFile isDir entry.1) (hdst : ∀ entry ∈ entries, entry.2 ≠ "")
    (t : Transfer) (ht : t ∈ groupTransfers isDir entries) (r : Remote) :
    PlacedAlike r isDir t ↔ Clean r t.dst := by
  have hg := grouped_transfers hsrc hdst t ht
  obtain ⟨hslash, hdir⟩ | ⟨hslash, dir, base, hin, hdir, hbase⟩ | ⟨hslash, hdir, base, hbare⟩ :=
    dirText_cases hg.dst
  · rw [hg.alike_iff r hdir, hslash, direct_slash_iff, Clean, hdir]
    simp [hslash]
  · rw [hg.alike_iff r hdir, hslash, Clean, hdir]
    by_cases hdot : base = "."
    · rw [hdot] at hin
      have hiff := hin.direct_dot_iff r
      simp only [hiff, hslash, hbase, hdot]
      by_cases hexp : r.expansion t.dst = none <;> simp [hexp]
    · rw [hin.direct_iff r hdot]
      simp [hslash, hbase, hdot]
  · have hclean : Clean r t.dst ↔ t.dst = "." ∨ t.dst = "/." := by rw [Clean, hdir]
    rw [hclean]
    constructor
    · intro halike
      by_contra hno
      have hdot : base ≠ "." := by
        intro hbase
        rw [hbase] at hbare
        exact hno (hbare.text.symm)
      exact bare_not_alike r hg hbare hslash hdot halike
    · exact bare_alike_dot r hg hbare

end Entries

/-- A target with an empty home directory. -/
def emptyHome : Remote where
  home := ["home", "me"]
  isDir q := q.isPrefixOf ["home", "me"]
  isFile _ := false
  tilde name := if name = "~" then some ["home", "me"] else none
  entered _ _ := rfl
  tilde_apart name there h := by
    split at h
    · cases h
      intro hpre
      exact absurd hpre.length_le (by simp)
    · cases h

theorem placed_alike_in_srv :
    PlacedAlike emptyHome (fun _ => false) ⟨["out/app.conf"], "/srv/app.conf"⟩ :=
  (placed_alike_iff (fun _ => false) [("out/app.conf", "/srv/app.conf")]
    (by simp only [List.forall_mem_singleton]; exact ⟨rfl, by decide⟩) (by simp)
    ⟨["out/app.conf"], "/srv/app.conf"⟩ (by decide) emptyHome).mpr (by
      have hdir : dirText "/srv/app.conf" = some "/srv" := by decide
      have hplain : emptyHome.expansion "/srv/app.conf" = none := by decide
      rw [Clean, hdir]
      exact .inr (by rw [if_pos hplain]; exact .inr (.inr (by decide))))

/-- A bare name becomes a directory with the file in it by one tool, and the file by the other. -/
theorem bare_name_nested :
    groupTransfers (fun _ => false) [("out/app.conf", "app.conf")] =
      [⟨["out/app.conf"], "app.conf"⟩] ∧
    runRsyncTransfer emptyHome (fun _ => false) ⟨["out/app.conf"], "app.conf"⟩ =
      some ⟨["home", "me", "app.conf"], [["home", "me", "app.conf", "app.conf"]]⟩ ∧
    runScpTransfer emptyHome (fun _ => false) ⟨["out/app.conf"], "app.conf"⟩ =
      some ⟨["home", "me"], [["home", "me", "app.conf"]]⟩ ∧
    ¬ PlacedAlike emptyHome (fun _ => false) ⟨["out/app.conf"], "app.conf"⟩ := by
  have hrsync : runRsyncTransfer emptyHome (fun _ => false) ⟨["out/app.conf"], "app.conf"⟩ =
      some ⟨["home", "me", "app.conf"], [["home", "me", "app.conf", "app.conf"]]⟩ := by decide
  have hscp : runScpTransfer emptyHome (fun _ => false) ⟨["out/app.conf"], "app.conf"⟩ =
      some ⟨["home", "me"], [["home", "me", "app.conf"]]⟩ := by decide
  refine ⟨by decide, hrsync, hscp, fun h => ?_⟩
  have hlanded := h.1
  rw [hrsync, hscp] at hlanded
  exact absurd hlanded (by decide)

end Shellflow.Placement
