import Shellflow.Lib.Classes
import Shellflow.Executor.Placement

/-! The grouping of a copy step's entries: the one pass with its index table computes the classes of
the entries by directory, and sharing a transfer moves no file, except at what `Fits` rules out. -/
namespace Shellflow.CopyGroups
open Placement (Remote RemotePath)

abbrev Entry := String × String

/-- The directory in which an entry travels with others, for a file that keeps its name. -/
def travelsTo (isDir : String → Bool) (entry : Entry) : Option String :=
  if isDir entry.1 then none
  else
    match Destination.parse entry.2 with
    | .dir itself => some itself
    | .file parent base => if baseName entry.1 = base then some parent else none

def groupDir (group : List Entry) : String :=
  (group.getLast?.map fun entry => (Destination.parse entry.2).directory).getD ""

/-- The destination of a lone entry as it is, and else the directory of the group. -/
def transferOf (group : List Entry) : Transfer :=
  ⟨group.map Prod.fst,
    match group with
    | [entry] => entry.2
    | _ => groupDir group ++ "/"⟩

/-- The entries that travel together. -/
def groupsOf (isDir : String → Bool) (entries : List Entry) : List (List Entry) :=
  Classes.classes (travelsTo isDir) entries

/-- Where an entry lands in a transfer of its own. -/
def landsAlone (r : Remote) (isDir : String → Bool) (entry : Entry) : Option RemotePath :=
  (Placement.runRsyncTransfer r isDir ⟨[entry.1], entry.2⟩).bind fun placed => placed.landed.head?

/-- Every file of a group lands where it would in a transfer of its own. -/
def LandAsAlone (r : Remote) (isDir : String → Bool) (group : List Entry) : Prop :=
  ∀ (i : Nat) (entry : Entry), group[i]? = some entry →
    ((Placement.runRsyncTransfer r isDir (transferOf group)).bind fun placed => placed.landed[i]?) =
      landsAlone r isDir entry

/-- A source that can be a file: its last component is a name. -/
def Named (src : String) : Prop := baseName src ≠ "" ∧ baseName src ≠ "."

instance (src : String) : Decidable (Named src) := inferInstanceAs (Decidable (_ ∧ _))

/-- A destination at which it makes no difference that the directory is named instead: one that is
a directory already would have had the file put into it, and a name without a directory is taken
from the home directory when it is alone, and from the root in a group. -/
def Fits (r : Remote) (dst : String) : Prop :=
  match Placement.dirText dst with
  | some dir =>
    Str.endsWith dst "/" = true ∨ r.isDirAfter (r.locate dir) (r.locateRemote dst) = false
  | none =>
    r.blocked (r.locate dst) = false ∧ (r.expansion dst = some [] ∨
      (r.expansion dst = some [dst] ∧ r.isDirAfter (r.locate dst) [dst] = false))

section Pass
variable {isDir : String → Bool}

theorem directory_of_travelsTo {entry : Entry} {dir : String} (h : travelsTo isDir entry = some dir) :
    (Destination.parse entry.2).directory = dir ∧ isDir entry.1 = false := by
  rw [travelsTo] at h
  obtain ⟨hdir, h⟩ := Option.ite_none_left_eq_some.mp h
  refine ⟨?_, eq_false_of_ne_true hdir⟩
  cases hparse : Destination.parse entry.2 with
  | dir itself =>
    rw [hparse] at h
    exact Option.some.inj h
  | file parent base =>
    rw [hparse] at h
    exact Option.some.inj (Option.ite_none_right_eq_some.mp h).2

/-- One entry of the pass, by the directory it travels to. -/
theorem groupEntry_eq (g : Grouping) (entry : Entry) : groupEntry isDir g entry =
    match travelsTo isDir entry with
    | none => { g with transfers := g.transfers ++ [⟨[entry.1], entry.2⟩] }
    | some dir =>
      match g.byDir.lookup dir with
      | some i =>
        { g with transfers := g.transfers.modify i fun t => ⟨t.srcs ++ [entry.1], dir ++ "/"⟩ }
      | none => ⟨g.transfers ++ [⟨[entry.1], entry.2⟩], g.byDir ++ [(dir, g.transfers.length)]⟩ := by
  obtain ⟨src, dst⟩ := entry
  cases hkey : travelsTo isDir (src, dst) with
  | none =>
    rw [travelsTo] at hkey
    cases hsrc : isDir src with
    | true => simp [groupEntry, hsrc]
    | false =>
      cases hparse : Destination.parse dst with
      | dir itself => simp [hsrc, hparse] at hkey
      | file parent base =>
        have hrenamed : baseName src ≠ base := by simpa [hsrc, hparse] using hkey
        simp [groupEntry, hsrc, hparse, hrenamed]
  | some dir =>
    obtain ⟨hdir, hsrc⟩ := directory_of_travelsTo hkey
    rw [travelsTo, if_neg (by simp [hsrc])] at hkey
    dsimp only at hdir hsrc hkey ⊢
    cases hparse : Destination.parse dst with
    | dir itself =>
      rw [hparse] at hdir
      simp only [groupEntry, hparse, hsrc, hdir]
      cases g.byDir.lookup dir <;> rfl
    | file parent base =>
      rw [hparse] at hdir hkey
      have hkeeps := (Option.ite_none_right_eq_some.mp hkey).1
      simp only [groupEntry, hparse, hsrc, hdir, hkeeps, beq_self_eq_true]
      cases g.byDir.lookup dir <;> rfl

/-- The transfers so far are those of the groups so far. -/
structure Tracks (g : Grouping) (t : Classes.Table Entry String) : Prop where
  transfers : g.transfers = t.groups.map transferOf
  byDir : g.byDir = t.index
  nonempty : ∀ group ∈ t.groups, group ≠ []

theorem transferOf_concat {group : List Entry} (hne : group ≠ []) {entry : Entry} {dir : String}
    (hdir : (Destination.parse entry.2).directory = dir) :
    transferOf (group ++ [entry]) = ⟨(transferOf group).srcs ++ [entry.1], dir ++ "/"⟩ := by
  cases group with
  | nil => exact absurd rfl hne
  | cons first rest =>
    have hlast : groupDir (first :: rest ++ [entry]) = dir := by
      rw [groupDir, List.getLast?_concat, Option.map_some, Option.getD_some, hdir]
    cases rest with
    | nil => simpa [transferOf] using hlast
    | cons second rest => simpa [transferOf] using hlast

theorem tracks_groupEntry {g : Grouping} {t : Classes.Table Entry String} (h : Tracks g t)
    (entry : Entry) :
    Tracks (groupEntry isDir g entry) (Classes.add (travelsTo isDir) t entry) := by
  have hone : ∀ group ∈ t.groups ++ [[entry]], group ≠ [] := by
    intro group hgroup
    cases List.mem_append.mp hgroup with
    | inl hold => exact h.nonempty group hold
    | inr hnew => exact List.mem_singleton.mp hnew ▸ List.cons_ne_nil _ _
  rw [groupEntry_eq, Classes.add]
  cases hkey : travelsTo isDir entry with
  | none =>
    refine ⟨?_, h.byDir, hone⟩
    simp [h.transfers, transferOf]
  | some dir =>
    dsimp only
    rw [h.byDir]
    cases hlook : t.index.lookup dir with
    | none =>
      refine ⟨?_, ?_, hone⟩
      · simp [h.transfers, transferOf]
      · simp [h.transfers]
    | some i =>
      refine ⟨?_, rfl, ?_⟩
      · dsimp only
        rw [h.transfers]
        refine List.ext_getElem? fun j => ?_
        rw [List.getElem?_modify, List.getElem?_map, List.getElem?_map, List.getElem?_modify]
        cases hj : t.groups[j]? with
        | none => rfl
        | some group =>
          have hne := h.nonempty group (List.mem_of_getElem? hj)
          have hconcat := transferOf_concat hne (directory_of_travelsTo hkey).1
          by_cases hij : i = j
          · simp [hij, hconcat]
          · simp [hij]
      · intro group hgroup
        obtain ⟨j, hj⟩ := List.mem_iff_getElem?.mp hgroup
        rw [List.getElem?_modify] at hj
        obtain ⟨old, hold, hmod⟩ := Option.map_eq_some_iff.mp hj
        have hne := h.nonempty old (List.mem_of_getElem? hold)
        split at hmod
        · exact hmod ▸ List.append_ne_nil_of_left_ne_nil hne _
        · exact hmod ▸ hne

theorem groupTransfers_eq (isDir : String → Bool) (entries : List Entry) :
    groupTransfers isDir entries = (groupsOf isDir entries).map transferOf := by
  have htracks : Tracks (entries.foldl (groupEntry isDir) ⟨[], []⟩)
      (Classes.collect (travelsTo isDir) entries) := by
    induction entries using List.reverseRecOn with
    | nil => exact ⟨rfl, rfl, by simp [Classes.collect]⟩
    | append_singleton entries entry ih =>
      rw [List.foldl_append, List.foldl_cons, List.foldl_nil, Classes.collect_concat]
      exact tracks_groupEntry ih entry
  rw [groupTransfers, htracks.transfers, Classes.groups_collect, groupsOf]

end Pass

section Places
variable (r : Remote) {isDir : String → Bool} {entry : Entry} {dir : String}

theorem baseName_concat (front : String) {base : String} (h : '/' ∉ base.toList) :
    baseName (front ++ "/" ++ base) = base := by
  rw [baseName, String.append_assoc, show "/" = String.singleton '/' from rfl,
    Str.rsplitOnceChar_append _ _ h]
  rfl

theorem Named.not_contents {src : String} (h : Named src) : Placement.isContents src = false := by
  rw [Placement.isContents, Bool.or_eq_false_iff]
  constructor
  · refine eq_false_of_ne_true fun hends => ?_
    obtain ⟨front, hfront⟩ := Placement.endsWith_slash_iff.mp hends
    refine h.1 ?_
    rw [hfront, ← String.append_empty (s := front ++ "/")]
    exact baseName_concat front (by simp)
  · refine eq_false_of_ne_true fun hends => ?_
    obtain ⟨front, hfront⟩ := List.isSuffixOf_iff_suffix.mp hends
    have hsrc : src = String.ofList front ++ "/" ++ "." := by
      apply String.toList_inj.mp
      simp [← hfront]
    exact h.2 (by rw [hsrc, baseName_concat _ (by decide)])

theorem InDir.locateRemote {dst dir base : String} (h : Placement.InDir dst dir base)
    (hdot : base ≠ ".") : r.locateRemote dst = r.locateRemote dir ++ [base] := by
  rw [Remote.locateRemote, Remote.locateRemote, Remote.expansion, Remote.expansion, h.tilde,
    h.parts hdot, h.locate r hdot]
  by_cases htilde : Str.startsWith dir "~" = true
  · rw [if_pos htilde, if_pos htilde]
    cases hparts : pathParts dir with
    | nil => exact absurd hparts (Placement.pathParts_ne_nil htilde)
    | cons first rest =>
      cases htild : r.tilde first with
      | none => simp [htild]
      | some there => simp [htild]
  · rw [if_neg htilde, if_neg htilde]
    rfl

/-- Where a group puts one of its files. -/
theorem landing_group {made : RemotePath} {src : String} (hsrc : Named src) (dir : String) :
    Placement.landing r made (dir ++ "/") src = r.locateRemote (dir ++ "/") ++ [baseName src] := by
  have hslash : Str.endsWith (dir ++ "/") "/" = true := Placement.endsWith_slash_iff.mpr ⟨dir, rfl⟩
  rw [Placement.landing, if_neg (by simp [hsrc.not_contents]), hslash, Bool.true_or, if_pos rfl]

theorem landsAlone_eq (hfile : isDir entry.1 = false) : landsAlone r isDir entry =
    if r.blocked (r.locate (Placement.rsyncDir entry.2)) then none
    else some (Placement.landing r (r.locate (Placement.rsyncDir entry.2)) entry.2 entry.1) := by
  rw [landsAlone, Placement.runRsyncTransfer, Placement.normalizeCopyPaths, if_neg (by simp [hfile])]
  dsimp only
  rw [Placement.place]
  by_cases hblocked : r.blocked (r.locate (Placement.rsyncDir entry.2)) = true
  · simp [hblocked]
  · simp [hblocked]

theorem parse_file {dst front base : String} (hslash : Str.endsWith dst "/" = false)
    (htext : dst = front ++ "/" ++ base) (hnamed : base ≠ "") (hbare : '/' ∉ base.toList) :
    Destination.parse dst = .file front base := by
  have hsplit : Str.rsplitOnceChar dst '/' = some (front, base) := by
    rw [htext, String.append_assoc]
    exact Str.rsplitOnceChar_append front base hbare
  rw [Destination.parse, if_neg (by simp [hslash]), hsplit]
  exact if_pos hnamed

theorem travelsTo_file {front base : String} (hparse : Destination.parse entry.2 = .file front base)
    (h : travelsTo isDir entry = some dir) : baseName entry.1 = base ∧ front = dir := by
  rw [travelsTo, hparse] at h
  obtain ⟨hkeeps, hdir⟩ := Option.ite_none_right_eq_some.mp (Option.ite_none_left_eq_some.mp h).2
  exact ⟨hkeeps, Option.some.inj hdir⟩

/-- A destination and the directory it travels to, by its shape. -/
theorem travels_cases (hdst : entry.2 ≠ "") (h : travelsTo isDir entry = some dir) :
    (Str.endsWith entry.2 "/" = true ∧ Placement.dirText entry.2 = some entry.2 ∧
        Placement.Alike (dir ++ "/") entry.2) ∨
      (Str.endsWith entry.2 "/" = false ∧ Placement.dirText entry.2 = some dir ∧
        Placement.InDir entry.2 dir (baseName entry.1)) ∨
      (Str.endsWith entry.2 "/" = false ∧ Placement.dirText entry.2 = none ∧
        (dir = "" ∨ dir = "/") ∧ Placement.Bare entry.2 (baseName entry.1)) := by
  obtain ⟨hslash, htext⟩ | ⟨hslash, front, base, hin, htext, -⟩ | ⟨hslash, htext, base, hbare⟩ :=
    Placement.dirText_cases hdst
  · refine .inl ⟨hslash, htext, ?_⟩
    have hdir := (directory_of_travelsTo h).1
    rw [Destination.parse, if_pos hslash] at hdir
    have halike : Placement.Alike dir entry.2 := hdir ▸ Placement.alike_scpDir hdst
    have hne : dir ≠ "" := hdir ▸ Placement.scpDir_ne_empty entry.2
    exact (Placement.alike_slash hne).trans halike
  · obtain ⟨rfl, rfl⟩ := travelsTo_file (parse_file hslash hin.text hin.named hin.bare) h
    exact .inr (.inl ⟨hslash, htext, hin⟩)
  · refine .inr (.inr ⟨hslash, htext, ?_⟩)
    cases hbare.text with
    | inl hroot =>
      have hparse : Destination.parse entry.2 = .file "" base :=
        parse_file hslash (by rw [hroot]; rfl) hbare.named hbare.bare
      obtain ⟨rfl, rfl⟩ := travelsTo_file hparse h
      exact ⟨.inl rfl, hbare⟩
    | inr hname =>
      have hparse : Destination.parse entry.2 = .file "/" base := by
        rw [Destination.parse, if_neg (by simp [hslash]),
          Str.rsplitOnceChar_eq_none (by rw [hname]; exact hbare.bare), hname]
      obtain ⟨rfl, rfl⟩ := travelsTo_file hparse h
      exact ⟨.inr rfl, hbare⟩

theorem rsyncDir_file {dst front base : String} (hslash : Str.endsWith dst "/" = false)
    (hin : Placement.InDir dst front base) : Placement.rsyncDir dst = front := by
  have hsplit : Str.rsplitOnceChar dst '/' = some (front, base) := by
    rw [hin.text, String.append_assoc]
    exact Str.rsplitOnceChar_append front base hin.bare
  rw [Placement.rsyncDir, if_neg (by simp [hslash]), hsplit]
  exact if_pos ⟨hin.named, hin.within⟩

theorem locateRemote_root (hroot : dir = "" ∨ dir = "/") : r.locateRemote (dir ++ "/") = [] := by
  cases hroot with
  | inl hdir => rw [hdir]; rfl
  | inr hdir => rw [hdir]; rfl

/-- Where a name without a directory lands is the root only for a home directory there. -/
theorem landing_bare {dst : String} (hbare : Placement.Bare dst (baseName entry.1))
    (hsrc : Named entry.1) (hslash : Str.endsWith dst "/" = false) :
    Placement.landing r (r.locate dst) dst entry.1 = [baseName entry.1] ↔
      (r.expansion dst = some [] ∨
        (r.expansion dst = some [dst] ∧ r.isDirAfter (r.locate dst) [dst] = false)) := by
  have hpart : IsPart (baseName entry.1) := ⟨hsrc.1, hsrc.2, hbare.bare⟩
  have hparts : pathParts dst = [baseName entry.1] := by
    cases hbare.text with
    | inl hroot => rw [hroot, show "/" = "" ++ "/" from rfl, pathParts_below _ hpart]; rfl
    | inr hname => rw [hname, pathParts_part hpart]
  rw [Placement.landing, if_neg (by simp [hsrc.not_contents]), hslash, Bool.false_or]
  cases hexp : r.expansion dst with
  | none =>
    rw [Placement.locateRemote_of_none r hexp, Placement.isDirAfter_self, if_pos rfl,
      Remote.locate, hparts]
    refine iff_of_false (fun hsame => ?_) (by simp)
    have hlen := congrArg List.length hsame
    simp at hlen
  | some there =>
    have hdst : dst = baseName entry.1 := by
      cases hbare.text with
      | inr hname => exact hname
      | inl hroot =>
        obtain ⟨-, -, -, -, -, -, htilde, -⟩ := Placement.expansion_some r hexp
        rw [hroot] at htilde
        simp [Str.startsWith] at htilde
    rw [Remote.locateRemote, hexp, Option.getD_some, Option.some.injEq, Option.some.injEq, ← hdst]
    cases hthere : r.isDirAfter (r.locate dst) there with
    | true =>
      rw [if_pos rfl]
      constructor
      · exact fun hsame => .inl (List.append_left_eq_self.mp hsame)
      · intro hor
        cases hor with
        | inl hnil => rw [hnil, List.nil_append]
        | inr hone => rw [← hone.1, hthere] at hone; exact absurd hone.2 Bool.noConfusion
    | false =>
      rw [if_neg Bool.false_ne_true]
      constructor
      · exact fun hsame => .inr ⟨hsame, hsame ▸ hthere⟩
      · intro hor
        cases hor with
        | inl hnil => rw [hnil, Remote.isDirAfter] at hthere; simp at hthere
        | inr hone => exact hone.1

/-- Alone as in the group, for a file whose destination fits. -/
theorem landsAlone_iff (hdst : entry.2 ≠ "") (hsrc : Named entry.1)
    (h : travelsTo isDir entry = some dir) (hopen : r.blocked (r.locate (dir ++ "/")) = false) :
    landsAlone r isDir entry = some (r.locateRemote (dir ++ "/") ++ [baseName entry.1]) ↔
      Fits r entry.2 := by
  rw [landsAlone_eq r (directory_of_travelsTo h).2, Fits]
  obtain ⟨hslash, htext, halike⟩ | ⟨hslash, htext, hin⟩ | ⟨hslash, htext, hroot, hbare⟩ :=
    travels_cases hdst h
  · have hmade : Placement.rsyncDir entry.2 = entry.2 := by rw [Placement.rsyncDir, if_pos hslash]
    rw [hmade, htext, ← halike.locate r, if_neg (by simp [hopen]), Placement.landing,
      if_neg (by simp [hsrc.not_contents]), hslash, Bool.true_or, if_pos rfl, halike.locateRemote r]
    simp
  · have hlike := Placement.alike_slash hin.within
    rw [hlike.locate r] at hopen
    rw [rsyncDir_file hslash hin, htext, if_neg (by simp [hopen]), Placement.landing,
      if_neg (by simp [hsrc.not_contents]), hslash, Bool.false_or, hlike.locateRemote r,
      InDir.locateRemote r hin hsrc.2, Option.some.injEq]
    cases hthere : r.isDirAfter (r.locate dir) (r.locateRemote dir ++ [baseName entry.1]) with
    | true => simp [hthere]
    | false => simp [hthere]
  · rw [hbare.rsync, htext, locateRemote_root r hroot, List.nil_append]
    cases hblocked : r.blocked (r.locate entry.2) with
    | true => simp
    | false =>
      simp only [Bool.false_eq_true, if_false, Option.some.injEq, true_and]
      exact landing_bare r hbare hsrc hslash

theorem landsAlone_blocked (hdst : entry.2 ≠ "") (h : travelsTo isDir entry = some dir)
    (hblocked : r.blocked (r.locate (dir ++ "/")) = true) : landsAlone r isDir entry = none := by
  rw [landsAlone_eq r (directory_of_travelsTo h).2]
  obtain ⟨hslash, -, halike⟩ | ⟨hslash, -, hin⟩ | ⟨-, -, hroot, -⟩ := travels_cases hdst h
  · rw [Placement.rsyncDir, if_pos hslash, ← halike.locate r, if_pos hblocked]
  · rw [rsyncDir_file hslash hin, ← (Placement.alike_slash hin.within).locate r, if_pos hblocked]
  · have hlocate : r.locate (dir ++ "/") = [] := by
      cases hroot with
      | inl hdir => rw [hdir]; rfl
      | inr hdir => rw [hdir]; rfl
    rw [hlocate, Placement.not_blocked_of_entered r List.nil_prefix] at hblocked
    cases hblocked

end Places

section Groups
variable (r : Remote) {isDir : String → Bool} {group : List Entry} {dir : String}

theorem transferOf_several (hlen : group.length ≠ 1) (hne : group ≠ [])
    (hkey : ∀ entry ∈ group, travelsTo isDir entry = some dir) :
    transferOf group = ⟨group.map Prod.fst, dir ++ "/"⟩ := by
  have hdir : groupDir group = dir := by
    have hlast := hkey _ (List.getLast_mem hne)
    rw [groupDir, List.getLast?_eq_getLast_of_ne_nil hne, Option.map_some, Option.getD_some]
    exact (directory_of_travelsTo hlast).1
  cases group with
  | nil => exact absurd rfl hne
  | cons first rest =>
    cases rest with
    | nil => exact absurd rfl hlen
    | cons second rest => rw [← hdir]; rfl

theorem landAsAlone_one (entry : Entry) : LandAsAlone r isDir [entry] := by
  intro i other hi
  rw [List.getElem?_singleton] at hi
  obtain ⟨hi, hother⟩ := Option.ite_none_right_eq_some.mp hi
  rw [← Option.some.inj hother, hi, landsAlone]
  have hget : (fun placed : Placement.Placed => placed.landed[0]?) = fun placed => placed.landed.head? := by
    funext placed
    exact List.head?_eq_getElem?.symm
  rw [hget]
  rfl

theorem lands_several (hlen : group.length ≠ 1) (hne : group ≠ [])
    (hkey : ∀ entry ∈ group, travelsTo isDir entry = some dir) {i : Nat} {entry : Entry}
    (hi : group[i]? = some entry) (hsrc : Named entry.1) :
    ((Placement.runRsyncTransfer r isDir (transferOf group)).bind fun placed => placed.landed[i]?) =
      if r.blocked (r.locate (dir ++ "/")) then none
      else some (r.locateRemote (dir ++ "/") ++ [baseName entry.1]) := by
  have hpaths : Placement.normalizeCopyPaths isDir (group.map Prod.fst) (dir ++ "/") =
      (group.map Prod.fst, dir ++ "/") := by
    cases group with
    | nil => rfl
    | cons first rest =>
      cases rest with
      | nil => exact absurd rfl hlen
      | cons second rest => rfl
  have hslash : Str.endsWith (dir ++ "/") "/" = true := Placement.endsWith_slash_iff.mpr ⟨dir, rfl⟩
  rw [transferOf_several hlen hne hkey, Placement.runRsyncTransfer, hpaths]
  dsimp only
  rw [Placement.place, Placement.rsyncDir, if_pos hslash]
  by_cases hblocked : r.blocked (r.locate (dir ++ "/")) = true
  · simp [hblocked]
  · simp [hblocked, hi, landing_group r hsrc]

theorem landAsAlone_several (hlen : group.length ≠ 1) (hne : group ≠ [])
    (hkey : ∀ entry ∈ group, travelsTo isDir entry = some dir)
    (hsrc : ∀ entry ∈ group, Named entry.1) (hdst : ∀ entry ∈ group, entry.2 ≠ "") :
    LandAsAlone r isDir group ↔
      r.blocked (r.locate (dir ++ "/")) = true ∨ ∀ entry ∈ group, Fits r entry.2 := by
  cases hblocked : r.blocked (r.locate (dir ++ "/")) with
  | true =>
    refine iff_of_true (fun i entry hi => ?_) (.inl rfl)
    have hmem := List.mem_of_getElem? hi
    rw [lands_several r hlen hne hkey hi (hsrc entry hmem), if_pos hblocked,
      landsAlone_blocked r (hdst entry hmem) (hkey entry hmem) hblocked]
  | false =>
    have hiff : ∀ (i : Nat) (entry : Entry), group[i]? = some entry →
        ((((Placement.runRsyncTransfer r isDir (transferOf group)).bind
          fun placed => placed.landed[i]?) = landsAlone r isDir entry) ↔ Fits r entry.2) := by
      intro i entry hi
      have hmem := List.mem_of_getElem? hi
      rw [lands_several r hlen hne hkey hi (hsrc entry hmem), if_neg (by simp [hblocked]),
        ← landsAlone_iff r (hdst entry hmem) (hsrc entry hmem) (hkey entry hmem) hblocked]
      exact eq_comm
    rw [or_iff_right Bool.false_ne_true]
    constructor
    · intro h entry hentry
      obtain ⟨i, hi⟩ := List.mem_iff_getElem?.mp hentry
      exact (hiff i entry hi).mp (h i entry hi)
    · intro h i entry hi
      exact (hiff i entry hi).mpr (h entry (List.mem_of_getElem? hi))

/-- The transfers of a copy step are its entries, each in exactly one of them and in their order
there, and a shared transfer puts its files where the transfer of each alone would, exactly where
all their destinations fit. -/
theorem grouped_as_alone_iff (isDir : String → Bool) (entries : List Entry)
    (hsrc : ∀ entry ∈ entries, isDir entry.1 = false → Named entry.1)
    (hdst : ∀ entry ∈ entries, entry.2 ≠ "") :
    groupTransfers isDir entries = (groupsOf isDir entries).map transferOf ∧
      (groupsOf isDir entries).flatten.Perm entries ∧
      ∀ group ∈ groupsOf isDir entries, group.Sublist entries ∧ ∀ r : Remote,
        (LandAsAlone r isDir group ↔ group.length = 1 ∨
          r.blocked (r.locate (transferOf group).dst) = true ∨ ∀ entry ∈ group, Fits r entry.2) := by
  refine ⟨groupTransfers_eq isDir entries, Classes.flatten_perm _ entries, fun group hgroup => ?_⟩
  have hsub := Classes.sublist_of_mem hgroup
  refine ⟨hsub, fun r => ?_⟩
  have hne := Classes.ne_nil_of_mem hgroup
  by_cases hlen : group.length = 1
  · obtain ⟨entry, rfl⟩ := List.length_eq_one_iff.mp hlen
    exact iff_of_true (landAsAlone_one r entry) (.inl hlen)
  · rw [or_iff_right hlen]
    cases Classes.keyed_of_mem hgroup with
    | inl hone =>
      obtain ⟨entry, rfl⟩ := hone
      exact absurd rfl hlen
    | inr hkeyed =>
      obtain ⟨dir, hkey⟩ := hkeyed
      rw [transferOf_several hlen hne hkey]
      exact landAsAlone_several r hlen hne hkey
        (fun entry h => hsrc entry (hsub.subset h) (directory_of_travelsTo (hkey entry h)).2)
        fun entry h => hdst entry (hsub.subset h)

end Groups

theorem grouped_as_alone_srv :
    LandAsAlone Placement.emptyHome (fun _ => false)
      [("out/a.conf", "/srv/a.conf"), ("out/b.conf", "/srv/")] :=
  ((grouped_as_alone_iff (fun _ => false)
    [("out/a.conf", "/srv/a.conf"), ("out/run.sh", "/srv/start.sh"), ("out/b.conf", "/srv/")]
    (by intro entry h _; revert entry; decide) (by decide)).2.2 _ (by decide)).2
      Placement.emptyHome |>.mpr (.inr (.inr (by
        intro entry h
        have hdir : Placement.dirText "/srv/a.conf" = some "/srv" := by decide
        have hsame : Placement.dirText "/srv/" = some "/srv/" := by decide
        cases List.mem_pair.mp h with
        | inl hfirst => rw [hfirst, Fits, hdir]; exact .inr (by decide)
        | inr hsecond => rw [hsecond, Fits, hsame]; exact .inl (by decide))))

/-- Two bare names share a transfer to the root; alone they stay in the home directory. -/
example : (groupTransfers (fun _ => false) [("a", "a"), ("b", "b")]).map
      (Placement.runRsyncTransfer Placement.emptyHome fun _ => false) =
        [some ⟨[], [["a"], ["b"]]⟩] ∧
    landsAlone Placement.emptyHome (fun _ => false) ("a", "a") = some ["home", "me", "a", "a"] := by
  decide

end Shellflow.CopyGroups
