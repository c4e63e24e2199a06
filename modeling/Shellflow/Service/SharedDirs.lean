import Mathlib.Data.List.Perm.Subperm
import Shellflow.Service.Findings

/-! The runtime directories that units share: what the answer of the fleet claims, and what the
audit reports of it. -/
namespace Shellflow.ServiceCheck

section Claims

/-- The unit that the lines behind this one are about. -/
def unitAfter (current line : String) : String :=
  match Str.splitOnce line "=" with
  | none => current
  | some (key, value) => if Str.trim key = "Id" then Str.trim value else current

/-- The directories that a line declares. -/
def dirsOn (line : String) : List String :=
  match Str.splitOnce line "=" with
  | none => []
  | some (key, value) =>
    if Str.trim key = "RuntimeDirectory" then Str.splitWhitespace (Str.trim value) else []

def claimsOn (current line : String) : List (String × String) :=
  if current = "" then [] else (dirsOn line).map fun dir => (current, dir)

def claimsFrom : String → List String → List (String × String)
  | _, [] => []
  | current, line :: lines => claimsOn current line ++ claimsFrom (unitAfter current line) lines

/-- The claims of the answer, each a unit and a directory, as often as they are made. -/
def fleetClaims (fleet : String) : List (String × String) := claimsFrom "" (Str.lines fleet)

/-- A line behind the `Id` line of the unit declares the directory. -/
def Claims (fleet unit dir : String) : Prop :=
  unit ≠ "" ∧ ∃ before line after, Str.lines fleet = before ++ line :: after ∧
    before.foldl unitAfter "" = unit ∧ dir ∈ dirsOn line

/-- The units that claim a directory, in the order of their claims. -/
def claimants (fleet dir : String) : List String :=
  ((fleetClaims fleet).filter fun p => p.2 = dir).map Prod.fst

attribute [local simp] claimsFrom

theorem mem_claimsOn {current line unit dir : String} :
    (unit, dir) ∈ claimsOn current line ↔ unit ≠ "" ∧ current = unit ∧ dir ∈ dirsOn line := by
  by_cases hempty : current = ""
  · rw [claimsOn, if_pos hempty]
    constructor
    · intro h
      cases h
    · rintro ⟨hunit, rfl, -⟩
      exact absurd hempty hunit
  · rw [claimsOn, if_neg hempty, List.mem_map]
    constructor
    · rintro ⟨d, hd, heq⟩
      cases heq
      exact ⟨hempty, rfl, hd⟩
    · rintro ⟨-, rfl, hd⟩
      exact ⟨dir, hd, rfl⟩

theorem mem_claimsFrom {current unit dir : String} {lines : List String} :
    (unit, dir) ∈ claimsFrom current lines ↔ unit ≠ "" ∧ ∃ before line after,
      lines = before ++ line :: after ∧ before.foldl unitAfter current = unit ∧ dir ∈ dirsOn line := by
  induction lines generalizing current with
  | nil => simp
  | cons first lines ih =>
    rw [claimsFrom, List.mem_append, mem_claimsOn, ih]
    constructor
    · rintro (⟨hunit, hcurrent, hdir⟩ | ⟨hunit, before, line, after, rfl, hcurrent, hdir⟩)
      · exact ⟨hunit, [], first, lines, rfl, hcurrent, hdir⟩
      · exact ⟨hunit, first :: before, line, after, rfl, hcurrent, hdir⟩
    · rintro ⟨hunit, before, line, after, heq, hcurrent, hdir⟩
      cases before with
      | nil =>
        cases heq
        exact .inl ⟨hunit, hcurrent, hdir⟩
      | cons b before =>
        cases heq
        exact .inr ⟨hunit, before, line, after, rfl, hcurrent, hdir⟩

theorem mem_fleetClaims {fleet unit dir : String} :
    (unit, dir) ∈ fleetClaims fleet ↔ Claims fleet unit dir := mem_claimsFrom

theorem mem_claimants {fleet unit dir : String} :
    unit ∈ claimants fleet dir ↔ Claims fleet unit dir := by
  rw [claimants, List.mem_map, ← mem_fleetClaims]
  constructor
  · rintro ⟨⟨u, d⟩, hp, rfl⟩
    obtain ⟨hp, hdir⟩ := List.mem_filter.mp hp
    exact of_decide_eq_true hdir ▸ hp
  · intro h
    exact ⟨(unit, dir), List.mem_filter.mpr ⟨h, decide_eq_true rfl⟩, rfl⟩

/-- A claimed directory is a word of its line. -/
theorem isWord_of_claims {fleet unit dir : String} (h : Claims fleet unit dir) : Str.IsWord dir := by
  obtain ⟨-, -, line, -, -, -, hdir⟩ := h
  rw [dirsOn] at hdir
  split at hdir
  · cases hdir
  · split at hdir
    · exact Str.isWord_of_mem_splitWhitespace hdir
    · cases hdir

/-- No unit claims a directory twice iff no directory has a unit twice among its claimants. -/
theorem nodup_fleetClaims {fleet : String} :
    (fleetClaims fleet).Nodup ↔ ∀ dir, (claimants fleet dir).Nodup := by
  constructor
  · intro h dir
    refine List.Nodup.map_on (fun p hp q hq heq => ?_) (h.filter _)
    have hpdir := of_decide_eq_true (List.mem_filter.mp hp).2
    have hqdir := of_decide_eq_true (List.mem_filter.mp hq).2
    exact Prod.ext heq (hpdir.trans hqdir.symm)
  · intro h
    refine List.nodup_iff_count_le_one.mpr fun p => ?_
    have hcount := List.nodup_iff_count_le_one.mp (List.Nodup.of_map _ (h p.2)) p
    have hkept : ((fleetClaims fleet).filter fun q => q.2 = p.2).count p =
        (fleetClaims fleet).count p := List.count_filter (by simp)
    rwa [hkept] at hcount

end Claims

section Owners

/-- One line of the loop over the answer. -/
def fleetStep (state : String × List (String × List String)) (line : String) :
    String × List (String × List String) :=
  match Str.splitOnce line "=" with
  | none => state
  | some (key, value) =>
    let value := Str.trim value
    if Str.trim key = "Id" then (value, state.2)
    else if Str.trim key = "RuntimeDirectory" ∧ value ≠ "" ∧ state.1 ≠ "" then
      (state.1, (Str.splitWhitespace value).foldl
        (fun owners dir => Assoc.pushUnder manifestLe owners dir state.1) state.2)
    else state

def pushClaim (owners : List (String × List String)) (p : String × String) :
    List (String × List String) := Assoc.pushUnder manifestLe owners p.2 p.1

theorem fleetOwners_eq_foldl (fleet : String) :
    fleetOwners fleet = ((Str.lines fleet).foldl fleetStep ("", [])).2 := rfl

/-- A line changes the unit and pushes its claims. -/
theorem fleetStep_eq (current line : String) (owners : List (String × List String)) :
    fleetStep (current, owners) line =
      (unitAfter current line, (claimsOn current line).foldl pushClaim owners) := by
  rw [fleetStep, unitAfter, claimsOn, dirsOn]
  cases Str.splitOnce line "=" with
  | none => simp
  | some p =>
    obtain ⟨key, value⟩ := p
    dsimp only
    by_cases hid : Str.trim key = "Id"
    · have hother : Str.trim key ≠ "RuntimeDirectory" := by rw [hid]; decide
      rw [if_pos hid, if_pos hid, if_neg hother]
      simp
    · rw [if_neg hid, if_neg hid]
      by_cases hdir : Str.trim key = "RuntimeDirectory" ∧ Str.trim value ≠ "" ∧ current ≠ ""
      · rw [if_pos hdir, if_neg hdir.2.2, if_pos hdir.1, List.foldl_map]
        rfl
      · rw [if_neg hdir]
        by_cases hempty : current = ""
        · rw [if_pos hempty]
          rfl
        · rw [if_neg hempty]
          by_cases hkey : Str.trim key = "RuntimeDirectory"
          · have hvalue : Str.trim value = "" := by
              by_contra hvalue
              exact hdir ⟨hkey, hvalue, hempty⟩
            rw [if_pos hkey, hvalue]
            rfl
          · rw [if_neg hkey]
            rfl

theorem foldl_fleetStep (lines : List String) (current : String)
    (owners : List (String × List String)) :
    (lines.foldl fleetStep (current, owners)).2 = (claimsFrom current lines).foldl pushClaim owners := by
  induction lines generalizing current owners with
  | nil => rfl
  | cons line lines ih => rw [List.foldl_cons, fleetStep_eq, ih, claimsFrom, List.foldl_append]

/-- Every claimed directory is listed once, with all of its claimants. -/
theorem mem_fleetOwners {fleet dir : String} {units : List String} :
    (dir, units) ∈ fleetOwners fleet ↔ units = claimants fleet dir ∧ units ≠ [] := by
  rw [fleetOwners_eq_foldl, foldl_fleetStep]
  exact Assoc.mem_foldl_pushUnder

end Owners

section Reported

def ownDirs (shown : String) : List String :=
  Str.splitWhitespace (Str.trim (getProp shown "RuntimeDirectory"))

def sharedText (dir : String) (units : List String) : String :=
  "RuntimeDirectory=" ++ dir ++ " is claimed by " ++ toString units.length ++ " units (" ++
    Str.join ", " units ++ "): systemd removes and recreates it on every start, so starting one " ++
      "wipes the files of the others"

/-- The finding reports the directory as shared. -/
def Names (f : Verdict) (dir : String) : Prop :=
  ∃ rest, Str.splitOnce f.1 " is claimed by " = some ("RuntimeDirectory=" ++ dir, rest)

theorem mem_sharedDirFindings {shown fleet : String} {f : Verdict} :
    f ∈ sharedDirFindings shown fleet ↔ ∃ dir, 2 ≤ (claimants fleet dir).length ∧
      f = (sharedText dir (claimants fleet dir), if dir ∈ ownDirs shown then .fail else .warn) := by
  rw [sharedDirFindings, List.mem_filterMap]
  constructor
  · rintro ⟨⟨dir, units⟩, hmem, hf⟩
    obtain ⟨rfl, -⟩ := mem_fleetOwners.mp hmem
    dsimp only at hf
    split at hf
    · cases hf
    case isFalse hlen => exact ⟨dir, not_lt.mp hlen, (Option.some.inj hf).symm⟩
  · rintro ⟨dir, hlen, rfl⟩
    have hne : claimants fleet dir ≠ [] := by
      intro h
      rw [h] at hlen
      cases hlen
    refine ⟨(dir, claimants fleet dir), mem_fleetOwners.mpr ⟨rfl, hne⟩, ?_⟩
    dsimp only
    rw [if_neg (not_lt.mpr hlen)]
    rfl

theorem toList_not_space {dir : String} (h : Str.IsWord dir) :
    ' ' ∉ ("RuntimeDirectory=" ++ dir).toList := by
  rw [String.toList_append, List.mem_append, not_or]
  exact ⟨by decide, fun hmem => absurd (h.2 ' ' hmem) (by decide)⟩

theorem append_regroup (a b c d e f g h : String) :
    a ++ b ++ c ++ d ++ e ++ f ++ g ++ h = (a ++ b) ++ (c ++ (d ++ (e ++ (f ++ (g ++ h))))) := by
  simp only [String.append_assoc]

/-- What stands behind the directory in the text. -/
def sharedTail (units : List String) : String :=
  toString units.length ++ (" units (" ++ (Str.join ", " units ++
    ("): systemd removes and recreates it on every start, so starting one " ++
      "wipes the files of the others")))

theorem sharedText_eq (dir : String) (units : List String) :
    sharedText dir units = ("RuntimeDirectory=" ++ dir) ++ (" is claimed by " ++ sharedTail units) :=
  append_regroup _ _ _ _ _ _ _ _

theorem splitOnce_shared {dir : String} (h : Str.IsWord dir) (tail : String) :
    Str.splitOnce (("RuntimeDirectory=" ++ dir) ++ (" is claimed by " ++ tail)) " is claimed by " =
      some ("RuntimeDirectory=" ++ dir, tail) := by
  have hpat : " is claimed by ".toList = ' ' :: "is claimed by ".toList := by decide
  have hcut := Str.splitOnceChars_append "is claimed by ".toList tail.toList (toList_not_space h)
  rw [← hpat, ← String.toList_append, ← String.toList_append] at hcut
  rw [Str.splitOnce, hcut, Option.map_some, String.ofList_toList, String.ofList_toList]

theorem names_sharedText {dir : String} (h : Str.IsWord dir) (units : List String) (severity : Check)
    {d : String} : Names (sharedText dir units, severity) d ↔ d = dir := by
  rw [Names, sharedText_eq, splitOnce_shared h]
  constructor
  · rintro ⟨rest, heq⟩
    have hfront := (Prod.mk.inj (Option.some.inj heq)).1
    exact ((String.append_right_inj _).mp hfront).symm
  · rintro rfl
    exact ⟨sharedTail units, rfl⟩

/-- The texts differ when the numbers of units do. -/
theorem length_of_sharedText {dir : String} {units units' : List String}
    (h : sharedText dir units = sharedText dir units') : units.length = units'.length := by
  rw [sharedText_eq, sharedText_eq, String.append_right_inj, String.append_right_inj] at h
  have hcut : ∀ units : List String, ∃ rest : List Char,
      (sharedTail units).toList = (toString units.length).toList ++ ' ' :: rest := by
    intro units
    refine ⟨("units (" ++ (Str.join ", " units ++
      ("): systemd removes and recreates it on every start, so starting one " ++
        "wipes the files of the others"))).toList, ?_⟩
    have hpat : " units (".toList = ' ' :: "units (".toList := by decide
    rw [sharedTail, String.toList_append, String.toList_append, hpat, String.toList_append (s := "units (")]
    rfl
  have hspace : ∀ n : Nat, ' ' ∉ (toString n).toList := fun n hmem =>
    absurd (Str.isDigit_of_mem_toString hmem) (by decide)
  obtain ⟨rest, hrest⟩ := hcut units
  obtain ⟨rest', hrest'⟩ := hcut units'
  have hone := Str.splitOnceChars_of_notMem rest (hspace units.length)
  rw [← hrest, h, hrest', Str.splitOnceChars_of_notMem rest' (hspace units'.length)] at hone
  have hdigits := (Prod.mk.inj (Option.some.inj hone)).1
  have hvalue := Str.digitsValue_toString units'.length
  rw [hdigits, Str.digitsValue_toString] at hvalue
  exact Option.some.inj hvalue

theorem front_of_names {f : Verdict} {dir : String} (h : Names f dir) :
    f.1.toList.take 2 = ['R', 'u'] := by
  obtain ⟨rest, hsplit⟩ := h
  have hlit : "RuntimeDirectory=".toList = 'R' :: 'u' :: "ntimeDirectory=".toList := by decide
  rw [Str.splitOnce_eq_some hsplit, String.toList_append, String.toList_append, hlit]
  rfl

theorem not_names_of_front {f : Verdict} {dir front rest : String} {c d : Char} {cs : List Char}
    (hf : f.1 = front ++ rest) (hfront : front.toList = c :: d :: cs) (hother : [c, d] ≠ ['R', 'u']) :
    ¬ Names f dir := by
  intro h
  have htake := front_of_names h
  rw [hf, String.toList_append, hfront] at htake
  exact hother htake

/-- No other finding speaks of a directory. -/
theorem mem_shared_of_names {shown fleet dir : String} {f : Verdict}
    (hf : f ∈ unitInvariantFindings shown fleet) (h : Names f dir) :
    f ∈ sharedDirFindings shown fleet := by
  have hfour : ∀ {a b c d e : List Verdict}, f ∈ a ++ b ++ c ++ d ++ e →
      f ∈ a ∨ f ∈ b ∨ f ∈ c ∨ f ∈ d ∨ f ∈ e := by
    intro a b c d e hmem
    simpa only [List.mem_append, or_assoc] using hmem
  have hone : ∀ {p : Prop} [Decidable p] {v : Verdict}, f ∈ (if p then [v] else []) → f = v := by
    intro p _ v hmem
    split at hmem
    · exact List.mem_singleton.mp hmem
    · cases hmem
  rw [unitInvariantFindings] at hf
  rcases hfour hf with hf | hf | hf | hf | hf
  · exact hf
  · obtain rfl := hone hf
    exact absurd h (not_names_of_front (by rw [String.append_assoc, String.append_assoc])
      (show "Type=".toList = 'T' :: 'y' :: "pe=".toList by decide) (by decide))
  · obtain rfl := hone hf
    exact absurd h (not_names_of_front (by rw [String.append_assoc, String.append_assoc])
      (show "Restart=".toList = 'R' :: 'e' :: "start=".toList by decide) (by decide))
  · obtain rfl := hone hf
    exact absurd h (not_names_of_front (String.append_empty).symm
      (show _ = 't' :: 'h' :: _ from rfl) (by decide))
  · obtain rfl := hone hf
    exact absurd h (not_names_of_front (by rw [String.append_assoc, String.append_assoc])
      (show "ProtectHome=".toList = 'P' :: 'r' :: "otectHome=".toList by decide) (by decide))

/-- Shared directories are found exactly: a directory is reported iff two units claim it, as a
failure iff the audited unit does, and with each of the claiming units once. -/
structure SharedFound (shown fleet : String) : Prop where
  reported : ∀ dir, (∃ f ∈ unitInvariantFindings shown fleet, Names f dir) ↔
    ∃ unit unit', unit ≠ unit' ∧ Claims fleet unit dir ∧ Claims fleet unit' dir
  severity : ∀ f ∈ unitInvariantFindings shown fleet, ∀ dir, Names f dir →
    (f.2 = .fail ↔ dir ∈ ownDirs shown)
  once : ∀ f ∈ unitInvariantFindings shown fleet, ∀ dir, Names f dir →
    ∃ units : List String, units.Nodup ∧ (∀ unit, unit ∈ units ↔ Claims fleet unit dir) ∧
      f.1 = sharedText dir units

theorem names_iff {shown fleet dir : String} {f : Verdict} :
    (f ∈ unitInvariantFindings shown fleet ∧ Names f dir) ↔ 2 ≤ (claimants fleet dir).length ∧
      f = (sharedText dir (claimants fleet dir), if dir ∈ ownDirs shown then .fail else .warn) := by
  have hword : ∀ {d}, 2 ≤ (claimants fleet d).length → Str.IsWord d := by
    intro d hlen
    obtain ⟨unit, hunit⟩ := List.exists_mem_of_length_pos (lt_of_lt_of_le Nat.zero_lt_two hlen)
    exact isWord_of_claims (mem_claimants.mp hunit)
  constructor
  · rintro ⟨hf, hnames⟩
    obtain ⟨d, hlen, rfl⟩ := mem_sharedDirFindings.mp (mem_shared_of_names hf hnames)
    obtain rfl := (names_sharedText (hword hlen) _ _).mp hnames
    exact ⟨hlen, rfl⟩
  · rintro ⟨hlen, rfl⟩
    refine ⟨?_, (names_sharedText (hword hlen) _ _).mpr rfl⟩
    rw [unitInvariantFindings]
    have hmem := (@mem_sharedDirFindings shown fleet _).mpr ⟨dir, hlen, rfl⟩
    simp only [List.mem_append]
    exact .inl (.inl (.inl (.inl hmem)))

/-- The report is exact iff no unit of the answer claims a directory twice. -/
theorem sharedFound_iff (shown fleet : String) :
    SharedFound shown fleet ↔ (fleetClaims fleet).Nodup := by
  constructor
  · intro h
    refine nodup_fleetClaims.mpr fun dir => ?_
    by_cases hlen : 2 ≤ (claimants fleet dir).length
    · obtain ⟨hf, hnames⟩ := names_iff.mpr ⟨hlen, rfl⟩
      obtain ⟨units, hunits, hmem, htext⟩ := h.once _ hf dir hnames
      have hsub : units ⊆ claimants fleet dir := fun unit hunit =>
        mem_claimants.mpr ((hmem unit).mp hunit)
      have hperm := (List.subperm_of_subset hunits hsub).perm_of_length_le (length_of_sharedText htext).le
      exact hperm.nodup_iff.mp hunits
    · match hc : claimants fleet dir with
      | [] => exact List.nodup_nil
      | [unit] => exact List.nodup_singleton unit
      | _ :: _ :: _ => exact absurd (by rw [hc]; simp) hlen
  · intro h
    have hnodup := nodup_fleetClaims.mp h
    refine ⟨fun dir => ?_, fun f hf dir hnames => ?_, fun f hf dir hnames => ?_⟩
    · constructor
      · rintro ⟨f, hf⟩
        obtain ⟨hlen, -⟩ := names_iff.mp hf
        have hdistinct := hnodup dir
        match hc : claimants fleet dir with
        | [] | [_] => rw [hc] at hlen; simp at hlen
        | unit :: unit' :: units =>
          rw [hc] at hdistinct
          have hne : unit ≠ unit' := fun heq =>
            (List.nodup_cons.mp hdistinct).1 (heq ▸ List.mem_cons_self)
          refine ⟨unit, unit', hne, mem_claimants.mp ?_, mem_claimants.mp ?_⟩ <;> simp [hc]
      · rintro ⟨unit, unit', hne, hunit, hunit'⟩
        refine ⟨_, names_iff.mpr ⟨?_, rfl⟩⟩
        have hpair : [unit, unit'].Nodup := by simpa using hne
        refine (List.subperm_of_subset hpair fun u hu => ?_).length_le
        rcases List.mem_pair.mp hu with rfl | rfl
        · exact mem_claimants.mpr hunit
        · exact mem_claimants.mpr hunit'
    · obtain ⟨-, rfl⟩ := names_iff.mp ⟨hf, hnames⟩
      by_cases hown : dir ∈ ownDirs shown
      · simp [hown]
      · simp [hown]
    · obtain ⟨-, rfl⟩ := names_iff.mp ⟨hf, hnames⟩
      exact ⟨claimants fleet dir, hnodup dir, fun unit => mem_claimants, rfl⟩

/-- A unit that is listed again under another name is reported to share with itself. -/
theorem unit_shares_with_itself :
    ¬ SharedFound "" "Id=a\nRuntimeDirectory=d\n\nId=a\nRuntimeDirectory=d" := by
  intro h
  have hclaims : fleetClaims "Id=a\nRuntimeDirectory=d\n\nId=a\nRuntimeDirectory=d" =
      [("a", "d"), ("a", "d")] := by decide
  have hlen : 2 ≤ (claimants "Id=a\nRuntimeDirectory=d\n\nId=a\nRuntimeDirectory=d" "d").length := by
    rw [claimants, hclaims]
    decide
  obtain ⟨unit, unit', hne, hunit, hunit'⟩ := (h.reported "d").mp ⟨_, names_iff.mpr ⟨hlen, rfl⟩⟩
  rw [← mem_fleetClaims, hclaims] at hunit hunit'
  simp at hunit hunit'
  exact hne (hunit.trans hunit'.symm)

end Reported

end Shellflow.ServiceCheck
