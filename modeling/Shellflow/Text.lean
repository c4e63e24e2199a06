import Shellflow.Lib.Str

/-! The shell-text rules shared by the parser, the runtime and the secrets crate. -/
namespace Shellflow

def shellQuoteSingleChars : List Char → List Char
  | [] => ['\'']
  | c :: s =>
    if c = '\'' then ['\'', '\\', '\'', '\''] ++ shellQuoteSingleChars s
    else c :: shellQuoteSingleChars s

def shellQuoteSingle (value : String) : String :=
  String.ofList ('\'' :: shellQuoteSingleChars value.toList)

theorem shellQuoteSingleChars_inj {s t : List Char}
    (h : shellQuoteSingleChars s = shellQuoteSingleChars t) : s = t := by
  induction s generalizing t with
  | nil =>
    cases t with
    | nil => rfl
    | cons d t =>
      rw [shellQuoteSingleChars, shellQuoteSingleChars] at h
      split at h
      · simp at h
      · next hd => exact absurd (List.cons.inj h).1.symm hd
  | cons c s ih =>
    cases t with
    | nil =>
      rw [shellQuoteSingleChars, shellQuoteSingleChars] at h
      split at h
      · simp at h
      · next hc => exact absurd (List.cons.inj h).1 hc
    | cons d t =>
      rw [shellQuoteSingleChars, shellQuoteSingleChars] at h
      split at h <;> split at h
      · next hc hd => rw [hc, hd, ih (by simpa using h)]
      · next hd => exact absurd (List.cons.inj h).1.symm hd
      · next hc _ => exact absurd (List.cons.inj h).1 hc
      · rw [(List.cons.inj h).1, ih (List.cons.inj h).2]

theorem shellQuoteSingle_inj {s t : String} (h : shellQuoteSingle s = shellQuoteSingle t) : s = t :=
  String.toList_inj.mp (shellQuoteSingleChars_inj (List.cons.inj (String.ofList_inj.mp h)).2)

/-- The source compares the first and the last byte; both are ASCII quotes when they count. -/
def stripQuoteChars (trimmed : List Char) : List Char :=
  match trimmed with
  | first :: second :: rest =>
    if first = (second :: rest).getLast (List.cons_ne_nil second rest) ∧
        (first = '"' ∨ first = '\'') then
      (second :: rest).dropLast
    else trimmed
  | _ => trimmed

def stripSurroundingQuotes (raw : String) : String :=
  String.ofList (stripQuoteChars (Str.trimChars raw.toList))

def isAsciiAlphabetic (c : Char) : Bool := ('a' ≤ c && c ≤ 'z') || ('A' ≤ c && c ≤ 'Z')

def isAsciiAlphanumeric (c : Char) : Bool := isAsciiAlphabetic c || Str.isAsciiDigit c

def isAsciiHexdigit (c : Char) : Bool :=
  Str.isAsciiDigit c || ('a' ≤ c && c ≤ 'f') || ('A' ≤ c && c ≤ 'F')

/-- The characters of the Unicode category `Cc`. -/
def isControl (c : Char) : Bool := c.toNat ≤ 31 || (127 ≤ c.toNat && c.toNat ≤ 159)

def isValidVarName (name : String) : Bool :=
  match name.toList with
  | [] => false
  | first :: rest =>
    (isAsciiAlphabetic first || first == '_') &&
      rest.all fun c => isAsciiAlphanumeric c || c == '_'

def isValidUnitName (unit : String) : Bool :=
  unit ≠ "" && !Str.startsWith unit "." && !Str.contains unit ".." &&
    unit.toList.all fun c =>
      isAsciiAlphanumeric c || c == '-' || c == '_' || c == '.' || c == '@' || c == ':'

def normalizeUnit (unit : String) : String :=
  let unit := Str.trim unit
  if Str.endsWith unit ".service" then unit else unit ++ ".service"

/-- A systemd unit file, by its suffix. -/
def isUnitFile (name : String) : Bool :=
  [".service", ".socket", ".target", ".device", ".mount", ".automount", ".swap", ".path", ".timer",
    ".slice", ".scope", ".container", ".volume", ".network", ".kube", ".image", ".build",
    ".pod"].any fun suffix => Str.endsWith name suffix

/-- The components of a path. -/
def pathParts (path : String) : List String :=
  (Str.splitChar path '/').filter fun part => part ≠ "" && part ≠ "."

def fileName (path : String) : Option String :=
  (pathParts path).getLast?.filter fun part => part ≠ ".."

def parentDir (path : String) : Option (List String) :=
  if pathParts path = [] then none else some (pathParts path).dropLast

/-- A path with other components, absolute as before or not. -/
def withParts (path : String) (parts : List String) : String :=
  if Str.startsWith path "/" then "/" ++ Str.join "/" parts else Str.join "/" parts

/-- A path beside another one; a path that ends in no name has it below. -/
def withFileName (path name : String) : String :=
  if (fileName path).isSome then withParts path ((pathParts path).dropLast ++ [name])
  else withParts path (pathParts path ++ [name])

/-- A name without what stands behind its last dot; a dot in front counts as a letter. -/
def fileStem (name : String) : String :=
  match Str.rsplitOnceChar name '.' with
  | some (before, _) => if before = "" then name else before
  | none => name

def withExtension (path extension : String) : String :=
  match fileName path with
  | some name => withFileName path (fileStem name ++ "." ++ extension)
  | none => path

/-- A component of a path. -/
def IsPart (part : String) : Prop := part ≠ "" ∧ part ≠ "." ∧ '/' ∉ part.toList

theorem isPart_of_mem {path part : String} (h : part ∈ pathParts path) : IsPart part := by
  obtain ⟨hmem, hproper⟩ := List.mem_filter.mp h
  obtain ⟨chars, hchars, rfl⟩ := List.mem_map.mp hmem
  simp only [Bool.and_eq_true, decide_eq_true_eq] at hproper
  refine ⟨hproper.1, hproper.2, ?_⟩
  rw [String.toList_ofList]
  exact Str.notMem_of_mem_splitCharFrom hchars

theorem filter_parts {parts : List String} (h : ∀ part ∈ parts, IsPart part) :
    parts.filter (fun part => part ≠ "" && part ≠ ".") = parts := by
  rw [List.filter_eq_self]
  intro part hpart
  obtain ⟨hempty, hdot, -⟩ := h part hpart
  simp [hempty, hdot]

theorem splitChar_parts {parts : List String} (hne : parts ≠ []) (h : ∀ part ∈ parts, IsPart part) :
    Str.splitChar (Str.join "/" parts) '/' = parts := by
  have hchars : ∀ part ∈ parts.map String.toList, '/' ∉ part := by
    intro part hpart
    obtain ⟨text, htext, rfl⟩ := List.mem_map.mp hpart
    exact (h text htext).2.2
  have hid : String.ofList ∘ String.toList = id := by
    funext s
    exact String.ofList_toList
  rw [Str.splitChar, Str.join, String.toList_ofList]
  change (Str.splitCharFrom '/' [] (['/'].intercalate _)).map String.ofList = parts
  rw [Str.splitCharFrom_intercalate (by simpa using hne) hchars, List.map_map, hid, List.map_id]

theorem pathParts_withParts (path : String) {parts : List String} (h : ∀ part ∈ parts, IsPart part) :
    pathParts (withParts path parts) = parts := by
  rw [withParts]
  cases parts with
  | nil =>
    split
    · decide +kernel
    · decide +kernel
  | cons part parts =>
    have hne : part :: parts ≠ [] := List.cons_ne_nil _ _
    split
    · have hroot : Str.splitChar ("/" ++ Str.join "/" (part :: parts)) '/' = "" :: part :: parts := by
        have htext : ("/" ++ Str.join "/" (part :: parts)).toList =
            [] ++ '/' :: (Str.join "/" (part :: parts)).toList := by simp
        rw [Str.splitChar, htext, Str.splitCharFrom_append, List.map_append]
        change [""] ++ Str.splitChar (Str.join "/" (part :: parts)) '/' = _
        rw [splitChar_parts hne h]
        rfl
      rw [pathParts, hroot, List.filter_cons_of_neg (by decide), filter_parts h]
    · rw [pathParts, splitChar_parts hne h, filter_parts h]

/-- A path below another one. -/
theorem pathParts_concat (a b : String) :
    pathParts (a ++ "/" ++ b) = pathParts a ++ pathParts b := by
  have htext : (a ++ "/" ++ b).toList = a.toList ++ '/' :: b.toList := by simp
  rw [pathParts, Str.splitChar, htext, Str.splitCharFrom_append, List.map_append, List.filter_append]
  rfl

theorem pathParts_part {part : String} (h : IsPart part) : pathParts part = [part] := by
  rw [pathParts, Str.splitChar, Str.splitCharFrom_of_notMem [] h.2.2]
  simp [h.1, h.2.1]

theorem pathParts_below (path : String) {part : String} (h : IsPart part) :
    pathParts (path ++ "/" ++ part) = pathParts path ++ [part] := by
  rw [pathParts_concat, pathParts_part h]

theorem pathParts_of_fileName {path name : String} (h : fileName path = some name) :
    pathParts path = (pathParts path).dropLast ++ [name] := by
  obtain ⟨hlast, -⟩ := Option.filter_eq_some_iff.mp h
  exact (List.dropLast_append_getLast? name hlast).symm

theorem isWhitespace_of_varChar {c : Char} (h : (isAsciiAlphanumeric c || c == '_') = true) :
    Str.isWhitespace c = false := by
  have ha : ('a' : Char).toNat = 97 := rfl
  have hz : ('z' : Char).toNat = 122 := rfl
  have hA : ('A' : Char).toNat = 65 := rfl
  have hZ : ('Z' : Char).toNat = 90 := rfl
  have h0 : ('0' : Char).toNat = 48 := rfl
  have h9 : ('9' : Char).toNat = 57 := rfl
  have hu : ('_' : Char).toNat = 95 := rfl
  have hle : ∀ a b : Char, a ≤ b ↔ a.toNat ≤ b.toNat := fun a b => Iff.rfl
  have hrange : (97 ≤ c.toNat ∧ c.toNat ≤ 122) ∨ (65 ≤ c.toNat ∧ c.toNat ≤ 90) ∨
      (48 ≤ c.toNat ∧ c.toNat ≤ 57) ∨ c.toNat = 95 := by
    simp only [isAsciiAlphanumeric, isAsciiAlphabetic, Str.isAsciiDigit, Bool.or_eq_true,
      Bool.and_eq_true, decide_eq_true_eq, beq_iff_eq, hle, ha, hz, hA, hZ, h0, h9] at h
    rcases h with ((h | h) | h) | h
    · exact Or.inl h
    · exact Or.inr (Or.inl h)
    · exact Or.inr (Or.inr (Or.inl h))
    · exact Or.inr (Or.inr (Or.inr (by rw [h, hu])))
  simp only [Str.isWhitespace, Bool.or_eq_false_iff, Bool.and_eq_false_iff, beq_eq_false_iff_ne,
    decide_eq_false_iff_not]
  omega

theorem isWhitespace_of_mem_toString {n : Nat} {c : Char} (h : c ∈ (toString n).toList) :
    Str.isWhitespace c = false := by
  have hdigit : Str.isAsciiDigit c = true := Str.isDigit_of_mem_toString h
  refine isWhitespace_of_varChar ?_
  rw [isAsciiAlphanumeric, hdigit, Bool.or_true, Bool.true_or]

theorem varChar_bounds {c : Char} (h : (isAsciiAlphanumeric c || c == '_') = true) :
    48 ≤ c.val.toNat ∧ c.val.toNat < 123 ∧ c.val.toNat ≠ 61 := by
  simp only [isAsciiAlphanumeric, isAsciiAlphabetic, Str.isAsciiDigit, Bool.or_eq_true,
    Bool.and_eq_true, decide_eq_true_eq, beq_iff_eq, Char.le_def, UInt32.le_iff_toNat_le] at h
  rcases h with ((⟨hlow, hhigh⟩ | ⟨hlow, hhigh⟩) | ⟨hlow, hhigh⟩) | rfl
  · have hlow : 97 ≤ c.val.toNat := hlow
    have hhigh : c.val.toNat ≤ 122 := hhigh
    omega
  · have hlow : 65 ≤ c.val.toNat := hlow
    have hhigh : c.val.toNat ≤ 90 := hhigh
    omega
  · have hlow : 48 ≤ c.val.toNat := hlow
    have hhigh : c.val.toNat ≤ 57 := hhigh
    omega
  · decide

theorem varChar_of_isValidVarName {name : String} (h : isValidVarName name = true) :
    ∀ c ∈ name.toList, (isAsciiAlphanumeric c || c == '_') = true := by
  rw [isValidVarName] at h
  cases hname : name.toList with
  | nil => exact List.forall_mem_nil _
  | cons first rest =>
    rw [hname] at h
    simp only [Bool.and_eq_true, List.all_eq_true] at h
    refine List.forall_mem_cons.mpr ⟨?_, h.2⟩
    rw [isAsciiAlphanumeric, Bool.or_right_comm, h.1, Bool.true_or]

theorem isWord_of_isValidVarName {name : String} (h : isValidVarName name = true) :
    Str.IsWord name := by
  refine ⟨fun hnil => ?_, fun c hc => isWhitespace_of_varChar (varChar_of_isValidVarName h c hc)⟩
  rw [isValidVarName, hnil] at h
  cases h

end Shellflow
