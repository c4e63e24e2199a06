import Mathlib.Data.String.Basic
import Shellflow.AnswerReader
import Shellflow.Lib.Fallible
import Shellflow.Lib.SortedMap

/-! The integrity list of a service: the hash of every file under its roots, as a text that is saved
and as what a host reports. -/
namespace Shellflow.Integrity

def manifestVersion : String := "# shellflow-manifest v1"

/-- Paths with their hashes, in the order of the paths. -/
abbrev FileMap := SortedMap String String

structure Manifest where
  roots : List String
  entries : FileMap
deriving DecidableEq

inductive ServiceError where
  | transport (report : String)
  | other (report : String)
deriving DecidableEq, Repr

section Text

def rootLine (root : String) : String := "# root " ++ root

def entryLine (entry : String × String) : String := entry.2 ++ ("  " ++ entry.1)

def Manifest.lines (m : Manifest) : List String :=
  manifestVersion :: (m.roots.map rootLine ++ m.entries.pairs.map entryLine)

def Manifest.toText (m : Manifest) : String := String.join (m.lines.map (· ++ "\n"))

/-- One line of a manifest; every comment but a root is skipped. -/
def Manifest.addLine (m : Manifest) (line : String) : Except ServiceError Manifest :=
  if Str.startsWith line "#" then
    .ok <| match Str.stripPrefix line "# root " with
      | some root => { m with roots := m.roots ++ [Str.trim root] }
      | none => m
  else
    let line := Str.trimEnd line
    if line = "" then .ok m
    else
      match Str.splitOnce line "  " with
      | none => .error <| .other <|
          "service verify: malformed manifest line (want `<sha256>  <path>`): " ++ line
      | some (hash, path) =>
        if hash.utf8ByteSize ≠ 64 ∨ Str.all hash isAsciiHexdigit = false then
          .error <| .other <| "service verify: malformed sha256 in manifest line: " ++ line
        else .ok { m with entries := m.entries.insert (Str.trim path) hash }

/-- The header is looked for before any entry is read. -/
def fromText (text : String) : Except ServiceError Manifest :=
  if manifestVersion ∈ Str.lines text then
    (Str.lines text).foldlM Manifest.addLine ⟨[], SortedMap.empty⟩
  else
    .error <| .other <|
      "service verify: not a shellflow manifest (missing `" ++ manifestVersion ++ "` header)"

end Text

section Host
variable (run : List (String × String) → Except ServiceError (List (String × Section)))

def sectionName (idx : Nat) : String := "r" ++ toString idx

/-- The batch asks for the sums under each root. -/
def questions (roots : List String) : List (String × String) :=
  roots.zipIdx.map fun root => (sectionName root.2,
    "find " ++ shellQuoteSingle root.1 ++ " -type f -exec sha256sum \x7b\x7d + 2>/dev/null")

/-- A line that is no sum is skipped. -/
def addSum (m : FileMap) (line : String) : FileMap :=
  match Str.splitOnce line "  " with
  | none => m
  | some (hash, path) =>
    if hash.utf8ByteSize ≠ 64 then m else m.insert (Str.trim path) hash

/-- A section that did not come back counts as an empty one. -/
def sumsOf (sections : List (String × Section)) (idx : Nat) : List String :=
  Str.lines (((sections.lookup (sectionName idx)).map Section.body).getD "")

/-- The file map of the host, from the sections that came back. -/
def fileMap (sections : List (String × Section)) (roots : List String) : FileMap :=
  roots.zipIdx.foldl (fun m root => (sumsOf sections root.2).foldl addSum m) SortedMap.empty

def compute (roots : List String) : Except ServiceError FileMap := do
  let sections ← run (questions roots)
  .ok (fileMap sections roots)

/-- What `service manifest` saves. -/
def manifest (paths : List String) : Except ServiceError Manifest :=
  if paths = [] then .error (.other "service manifest: give at least one --path")
  else do
    let current ← compute run paths
    .ok ⟨paths, current⟩

def missing (expected current : FileMap) : List String :=
  expected.keys.filter fun path => path ∉ current.keys

def extra (expected current : FileMap) : List String :=
  current.keys.filter fun path => path ∉ expected.keys

def changed (expected current : FileMap) : List String :=
  (current.pairs.filter fun entry => (expected.get? entry.1).any fun want => want ≠ entry.2).map
    Prod.fst

/-- One report for every path that drifted. -/
def drift (host : String) (expected current : FileMap) : List String :=
  (missing expected current).map (fun path => "[FAIL] missing on " ++ host ++ ": " ++ path) ++
    ((extra expected current).map (fun path => "[FAIL] not in the manifest: " ++ path) ++
      (changed expected current).map fun path => "[FAIL] changed: " ++ path)

/-- The roots of the manifest, and the paths that are given and not among them. -/
def verifyRoots (expected : Manifest) (paths : List String) : List String :=
  paths.foldl Assoc.pushNew expected.roots

/-- The reports of `service verify` and how it ends. -/
def verify (host text : String) (paths : List String) : List String × Except ServiceError Unit :=
  match fromText text with
  | .error e => ([], .error e)
  | .ok expected =>
    if verifyRoots expected paths = [] then
      ([], .error (.other "service verify: the manifest names no root; pass --path"))
    else
      match compute run (verifyRoots expected paths) with
      | .error e => ([], .error e)
      | .ok current =>
        let reports := drift host expected.entries current
        if 0 < reports.length then
          (reports, .error (.other
            s!"service verify: {reports.length} file(s) drifted from the manifest"))
        else ([s!"service verify: {current.pairs.length} file(s) match the manifest"], .ok ())

end Host

/-- A root or a path that a line can carry. -/
structure Plain (path : String) : Prop where
  nonempty : path ≠ ""
  trimmed : Str.trim path = path
  newline_notMem : '\n' ∉ path.toList

/-- A hash of 64 hexadecimal digits. -/
structure IsSha256 (hash : String) : Prop where
  length : hash.toList.length = 64
  digits : Str.all hash isAsciiHexdigit = true

structure Manifest.WellFormed (m : Manifest) : Prop where
  roots : ∀ root ∈ m.roots, Plain root
  paths : ∀ entry ∈ m.entries.pairs, Plain entry.1
  hashes : ∀ entry ∈ m.entries.pairs, IsSha256 entry.2

section RoundTrip
variable {m : Manifest} {path hash : String}

theorem trimChars_toList (h : Plain path) : Str.trimChars path.toList = path.toList := by
  have hlist := congrArg String.toList h.trimmed
  rwa [Str.trim, String.toList_ofList] at hlist

theorem toList_ne_nil (h : Plain path) : path.toList ≠ [] := fun hnil =>
  h.nonempty (String.toList_eq_nil_iff.mp hnil)

theorem isAsciiHexdigit_of_mem (h : IsSha256 hash) {c : Char} (hc : c ∈ hash.toList) :
    isAsciiHexdigit c = true := List.all_eq_true.mp h.digits c hc

theorem notMem_hash (h : IsSha256 hash) {c : Char} (hc : isAsciiHexdigit c = false) :
    c ∉ hash.toList := by
  intro hmem
  rw [isAsciiHexdigit_of_mem h hmem] at hc
  cases hc

/-- Digits are single bytes. -/
theorem utf8ByteSize_hash (h : IsSha256 hash) : hash.utf8ByteSize = 64 := by
  have hsize : ∀ l : List Char, (∀ c ∈ l, isAsciiHexdigit c = true) →
      String.utf8Len l = l.length := by
    intro l hl
    induction l with
    | nil => rfl
    | cons c l ih =>
      obtain ⟨hc, hl⟩ := List.forall_mem_cons.mp hl
      have hval : c.val ≤ 0x7f := by
        simp only [isAsciiHexdigit, Str.isAsciiDigit, Bool.or_eq_true, Bool.and_eq_true,
          decide_eq_true_eq] at hc
        rcases hc with (⟨-, hle⟩ | ⟨-, hle⟩) | ⟨-, hle⟩ <;> exact UInt32.le_trans hle (by decide)
      have hone : c.utf8Size = 1 := if_pos hval
      rw [String.utf8Len_cons, ih hl, hone, List.length_cons]
  rw [← String.utf8Len_toList, hsize _ fun c => isAsciiHexdigit_of_mem h, h.length]

theorem addLine_root (h : Plain path) :
    m.addLine (rootLine path) = .ok { m with roots := m.roots ++ [path] } := by
  have hcomment : Str.startsWith (rootLine path) "#" = true := by
    rw [Str.startsWith, rootLine, String.toList_append]
    rfl
  rw [Manifest.addLine, if_pos hcomment, rootLine, Str.stripPrefix_append]
  dsimp only
  rw [h.trimmed]

theorem addLine_entry (h : Plain path) (hhash : IsSha256 hash) :
    m.addLine (entryLine (path, hash)) =
      .ok { m with entries := m.entries.insert path hash } := by
  have htrim := (Str.trimChars_eq_self_iff.mp (trimChars_toList h)).2
  have hlist : (entryLine (path, hash)).toList = hash.toList ++ ([' ', ' '] ++ path.toList) := by
    rw [entryLine, String.toList_append, String.toList_append]
    rfl
  have hne : hash.toList ≠ [] := List.ne_nil_of_length_pos (by rw [hhash.length]; decide)
  have hcomment : Str.startsWith (entryLine (path, hash)) "#" = false := by
    obtain ⟨c, l, hl⟩ := List.exists_cons_of_ne_nil hne
    have hc : c ≠ '#' := by
      rintro rfl
      exact notMem_hash hhash (c := '#') rfl (hl ▸ List.mem_cons_self)
    rw [Str.startsWith, hlist, hl]
    change ('#' == c && true) = false
    rw [Bool.and_true]
    exact beq_false_of_ne (Ne.symm hc)
  have hend : Str.trimEnd (entryLine (path, hash)) = entryLine (path, hash) := by
    rw [Str.trimEnd, hlist, ← List.append_assoc, Str.trimEndChars_append (toList_ne_nil h) htrim,
      List.append_assoc, ← hlist, String.ofList_toList]
  have hline : entryLine (path, hash) ≠ "" := by
    intro hempty
    rw [hempty] at hlist
    exact List.append_ne_nil_of_left_ne_nil hne _ hlist.symm
  have hsplit : Str.splitOnce (entryLine (path, hash)) "  " = some (hash, path) := by
    rw [Str.splitOnce, hlist]
    change (Str.splitOnceChars [' ', ' '] _).map _ = _
    rw [Str.splitOnceChars_append [' '] path.toList (notMem_hash hhash rfl), Option.map_some,
      String.ofList_toList, String.ofList_toList]
  rw [Manifest.addLine, if_neg (by rw [hcomment]; exact Bool.false_ne_true)]
  dsimp only
  rw [hend, if_neg hline, hsplit]
  dsimp only
  rw [if_neg (by simp [utf8ByteSize_hash hhash, hhash.digits]), h.trimmed]

theorem line_plain (h : m.WellFormed) :
    ∀ line ∈ m.lines, '\n' ∉ line.toList ∧ line.toList.getLast? ≠ some '\r' := by
  have hpath : ∀ front path : String, '\n' ∉ front.toList → Plain path →
      '\n' ∉ (front ++ path).toList ∧ (front ++ path).toList.getLast? ≠ some '\r' := by
    intro front path hfront hplain
    rw [String.toList_append]
    refine ⟨fun hmem => ?_, Str.getLast?_ne_of_trimEnd (Str.trimEndChars_append
      (toList_ne_nil hplain) (Str.trimChars_eq_self_iff.mp (trimChars_toList hplain)).2) rfl⟩
    cases List.mem_append.mp hmem with
    | inl hmem => exact hfront hmem
    | inr hmem => exact hplain.newline_notMem hmem
  intro line hline
  cases List.mem_cons.mp hline with
  | inl hline =>
    rw [hline]
    exact ⟨by decide, by decide⟩
  | inr hline =>
    cases List.mem_append.mp hline with
    | inl hline =>
      obtain ⟨root, hroot, rfl⟩ := List.mem_map.mp hline
      exact hpath "# root " root (by decide) (h.roots root hroot)
    | inr hline =>
      obtain ⟨entry, hentry, rfl⟩ := List.mem_map.mp hline
      rw [entryLine, ← String.append_assoc]
      refine hpath _ entry.1 (fun hmem => ?_) (h.paths entry hentry)
      rw [String.toList_append] at hmem
      cases List.mem_append.mp hmem with
      | inl hmem => exact notMem_hash (h.hashes entry hentry) rfl hmem
      | inr hmem => exact absurd hmem (by decide)

theorem foldlM_rootLine {roots : List String} (h : ∀ root ∈ roots, Plain root) (m : Manifest) :
    (roots.map rootLine).foldlM Manifest.addLine m = .ok { m with roots := m.roots ++ roots } := by
  induction roots generalizing m with
  | nil => rw [List.append_nil]; rfl
  | cons root roots ih =>
    obtain ⟨hroot, h⟩ := List.forall_mem_cons.mp h
    rw [List.map_cons, List.foldlM_cons, addLine_root hroot]
    exact (ih h _).trans (by rw [List.append_assoc, List.singleton_append])

theorem foldlM_entryLine {entries : List (String × String)} (h : ∀ entry ∈ entries, Plain entry.1)
    (hhash : ∀ entry ∈ entries, IsSha256 entry.2) (m : Manifest) :
    (entries.map entryLine).foldlM Manifest.addLine m = .ok { m with
      entries := entries.foldl (fun map entry => map.insert entry.1 entry.2) m.entries } := by
  induction entries generalizing m with
  | nil => rfl
  | cons entry entries ih =>
    obtain ⟨hentry, h⟩ := List.forall_mem_cons.mp h
    obtain ⟨hfirst, hhash⟩ := List.forall_mem_cons.mp hhash
    rw [List.map_cons, List.foldlM_cons, addLine_entry hentry hfirst]
    exact ih h hhash _

theorem fromText_toText (h : m.WellFormed) : fromText m.toText = .ok m := by
  have hlines : Str.lines m.toText = m.lines := Str.lines_join (line_plain h)
  have hheader : Manifest.addLine ⟨[], SortedMap.empty⟩ manifestVersion =
      .ok ⟨[], SortedMap.empty⟩ := by decide
  rw [fromText, hlines, Manifest.lines, if_pos List.mem_cons_self, List.foldlM_cons, hheader]
  change (List.foldlM _ _ _ : Except ServiceError Manifest) = _
  rw [List.foldlM_append, foldlM_rootLine h.roots]
  change (List.foldlM _ _ _ : Except ServiceError Manifest) = _
  rw [foldlM_entryLine h.paths h.hashes]
  exact congrArg _ (congrArg (Manifest.mk m.roots) (SortedMap.foldl_insert_pairs m.entries))

end RoundTrip

section Drift
variable {expected current : FileMap}

theorem missing_eq_nil : missing expected current = [] ↔ ∀ path ∈ expected.keys, path ∈ current.keys := by
  simp [missing]

theorem extra_eq_nil : extra expected current = [] ↔ ∀ path ∈ current.keys, path ∈ expected.keys := by
  simp [extra]

theorem changed_eq_nil : changed expected current = [] ↔
    ∀ path hash want, current.get? path = some hash → expected.get? path = some want → want = hash := by
  rw [changed, List.map_eq_nil_iff, List.filter_eq_nil_iff]
  constructor
  · intro h path hash want hcurrent hexpected
    have hpair := h (path, hash) (SortedMap.get?_eq_some.mp hcurrent)
    simpa [hexpected] using hpair
  · intro h entry hentry hdiff
    obtain ⟨want, hwant, hne⟩ := (Option.any_eq_true _ _).mp hdiff
    exact absurd (h entry.1 entry.2 want (SortedMap.get?_eq_some.mpr hentry) hwant) (by simpa using hne)

/-- There are no other differences than the three that are looked for. -/
theorem drift_eq_nil_iff (host : String) : drift host expected current = [] ↔ current = expected := by
  rw [drift, List.append_eq_nil_iff, List.append_eq_nil_iff, List.map_eq_nil_iff,
    List.map_eq_nil_iff, List.map_eq_nil_iff, missing_eq_nil, extra_eq_nil, changed_eq_nil]
  constructor
  · rintro ⟨hmissing, hextra, hchanged⟩
    refine SortedMap.ext_get? fun path => ?_
    cases hcurrent : current.get? path with
    | some hash =>
      obtain ⟨want, hwant⟩ := SortedMap.mem_keys.mp
        (hextra path (SortedMap.mem_keys.mpr ⟨hash, hcurrent⟩))
      rw [hwant, hchanged path hash want hcurrent hwant]
    | none =>
      cases hexpected : expected.get? path with
      | none => rfl
      | some want =>
        obtain ⟨hash, hhash⟩ := SortedMap.mem_keys.mp
          (hmissing path (SortedMap.mem_keys.mpr ⟨want, hexpected⟩))
        rw [hcurrent] at hhash
        cases hhash
  · rintro rfl
    refine ⟨fun path h => h, fun path h => h, fun path hash want hhash hwant => ?_⟩
    rw [hhash, Option.some_inj] at hwant
    exact hwant.symm

theorem verify_ok_iff {host text : String} {paths : List String} {m : Manifest}
    {run : List (String × String) → Except ServiceError (List (String × Section))}
    {sections : List (String × Section)} (htext : fromText text = .ok m)
    (hroots : verifyRoots m paths ≠ []) (hrun : run (questions (verifyRoots m paths)) = .ok sections) :
    (verify run host text paths).2 = .ok () ↔
      fileMap sections (verifyRoots m paths) = m.entries := by
  rw [← drift_eq_nil_iff host, verify, htext]
  dsimp only
  rw [if_neg hroots, compute, hrun]
  change (if _ then _ else _ : List String × Except ServiceError Unit).2 = _ ↔ _
  by_cases hdrift : drift host m.entries (fileMap sections (verifyRoots m paths)) = []
  · rw [if_neg (by rw [hdrift]; decide)]
    exact iff_of_true rfl hdrift
  · rw [if_pos (List.length_pos_iff.mpr hdrift)]
    exact iff_of_false (fun h => by cases h) hdrift

end Drift

/-- A well-formed manifest is read back from its text, one that was saved names a root, and a host
passes the verification exactly when its file map is the one of the manifest. -/
theorem manifest_exact
    (run : List (String × String) → Except ServiceError (List (String × Section))) :
    (∀ m : Manifest, m.WellFormed → fromText m.toText = .ok m) ∧
      (∀ (paths more : List String) (m : Manifest), manifest run paths = .ok m →
        verifyRoots m more ≠ []) ∧
      ∀ (host text : String) (paths : List String) (m : Manifest)
        (sections : List (String × Section)), fromText text = .ok m →
        verifyRoots m paths ≠ [] → run (questions (verifyRoots m paths)) = .ok sections →
          ((verify run host text paths).2 = .ok () ↔
            fileMap sections (verifyRoots m paths) = m.entries) := by
  refine ⟨fun m h => fromText_toText h, fun paths more m hsaved => ?_,
    fun host text paths m sections htext hroots hrun => verify_ok_iff htext hroots hrun⟩
  unfold manifest at hsaved
  split at hsaved
  · cases hsaved
  · next hpaths =>
    obtain ⟨current, -, hm⟩ := Fallible.bind_eq_ok.mp hsaved
    cases hm
    obtain ⟨root, hroot⟩ := List.exists_mem_of_ne_nil _ hpaths
    exact List.ne_nil_of_mem (Assoc.mem_foldl_pushNew.mpr (.inl hroot))

def sampleHash : String := String.ofList (List.replicate 64 'a')

def sampleManifest : Manifest :=
  ⟨["/opt/dufs"], SortedMap.empty.insert "/opt/dufs/bin/dufs" sampleHash⟩

def sampleRun (_ : List (String × String)) : Except ServiceError (List (String × Section)) :=
  .ok [("r0", ⟨0, sampleHash ++ "  /opt/dufs/bin/dufs"⟩)]

theorem manifest_exact_sample : fromText sampleManifest.toText = .ok sampleManifest ∧
    (verify sampleRun "web" sampleManifest.toText []).2 = .ok () := by
  have hplain : Plain "/opt/dufs" ∧ Plain "/opt/dufs/bin/dufs" :=
    ⟨⟨by decide, by decide, by decide⟩, ⟨by decide, by decide, by decide⟩⟩
  have hread := (manifest_exact sampleRun).1 sampleManifest
    ⟨fun root hroot => List.mem_singleton.mp hroot ▸ hplain.1,
      fun entry hentry => List.mem_singleton.mp hentry ▸ hplain.2,
      fun entry hentry => List.mem_singleton.mp hentry ▸ ⟨by decide, by decide⟩⟩
  have hmap : fileMap [("r0", ⟨0, sampleHash ++ "  /opt/dufs/bin/dufs"⟩)] ["/opt/dufs"] =
      sampleManifest.entries := by decide +kernel
  have hsaved : manifest sampleRun ["/opt/dufs"] = .ok sampleManifest :=
    congrArg (fun entries => Except.ok (Manifest.mk ["/opt/dufs"] entries)) hmap
  exact ⟨hread, ((manifest_exact sampleRun).2.2 "web" _ [] _ _ hread
    ((manifest_exact sampleRun).2.1 ["/opt/dufs"] [] sampleManifest hsaved) rfl).mpr hmap⟩

end Shellflow.Integrity
