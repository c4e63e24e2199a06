import Shellflow.Lib.UnitWords
import Shellflow.Mask.Ranges
import Shellflow.Service.Manifest

/-! The drop-in that is generated from a service manifest, and what systemd reads in it. The manifest
checks the names of the service, of the host and of the unit; the store, the credential keys and the
paths of the renders go into the file as they are. -/
namespace Shellflow.UnitRender
open UnitFile

/-- The facts that the drop-in is made of. -/
structure UnitManifest extends ServiceManifest where
  store : Option String
  credentials : List String
  renders : List (String × String)
deriving DecidableEq, Repr

section Parse
variable (toml : String → Except String TomlDoc)

/-- `ServiceManifest::parse` with the fields that the drop-in needs. -/
def UnitManifest.parse (service text : String) : Except ManifestError UnitManifest := do
  validateServiceName service
  let doc ← (toml text).mapError fun err => ManifestError.mk s!"invalid TOML: {err}"
  let host ← requireStr doc "host" service
  validateHostAlias host service
  let unit ← requireStr doc "unit" service
  validateManifestUnit unit service
  let renders ← manifestRenders doc service
  let _ ← optionalStr doc "binary" service
  let _ ← optionalStr doc "secret_file" service
  let store ← optionalStr doc "store" service
  let credentials ← optionalStrList doc "credentials" service
  let _ ← optionalPorts doc service
  let _ ← optionalStr doc "health" service
  let _ ← optionalStr doc "user" service
  let _ ← optionalStr doc "runtime_dir" service
  let _ ← optionalStr doc "type" service
  let _ ← optionalBool doc "hardening" service
  .ok ⟨⟨service, host, unit⟩, store, credentials, renders⟩

end Parse

def credstoreRoot : String := "/etc/credstore.encrypted"

/-- `Path::join`: an absolute path takes the place of the whole. -/
def joinPath (base path : String) : String :=
  if Str.startsWith path "/" then path else base ++ "/" ++ path

def UnitManifest.storeDir (m : UnitManifest) : String :=
  joinPath credstoreRoot (m.store.getD m.service)

structure RenderedUnit where
  text : String
  credentialKeys : List String
deriving DecidableEq, Repr

/-- The keys that the manifest names, or else those of the sealed file. -/
def UnitManifest.selected (m : UnitManifest) (credentialKeys : List String) : List String :=
  if m.credentials.isEmpty then credentialKeys else m.credentials

def credentialLine (store key : String) : String :=
  "LoadCredentialEncrypted=" ++ key ++ ":" ++ store ++ "/" ++ key

def renderLine (files : String × String) : String :=
  "ExecStartPre=/usr/local/bin/shellflow cred-env render " ++ files.1 ++ " " ++ files.2

def headerLines : List String :=
  ["# Generated by `shellflow unit render` — do not edit by hand.",
    "#",
    "# The credential wiring, the configuration render, and the version status",
    "# line are the same for every service; generating them keeps them from",
    "# drifting apart, and keeps the unit file free of copy-paste.",
    "#",
    "# The shared hardening is NOT here: it is one file in the repository",
    "# (services/_common/10-hardening.conf), installed into this directory",
    "# under the name 10-hardening.conf by the deploy playbook.",
    "",
    "[Service]"]

def render (m : UnitManifest) (credentialKeys : List String) : RenderedUnit where
  text := String.join ((headerLines ++ (m.selected credentialKeys).map (credentialLine m.storeDir) ++
    m.renders.map renderLine).map fun line => line ++ "\n")
  credentialKeys := m.selected credentialKeys

section Directives
variable (specifier : Char → Bool)

/-- What a line of the drop-in says to systemd. -/
inductive Directive where
  | header (name : Text)
  | credential (id : List Item) (path : Option (List Item))
  | command (tokens : List Token)
  | other (key value : Text)
  | malformed
deriving DecidableEq

/-- `ID[:PATH]` -/
def readCredential (value : Text) : Directive :=
  match value.dropWhile fun c => c != ':' with
  | [] => .credential (expand specifier value) none
  | _ :: path =>
    .credential (expand specifier (value.takeWhile fun c => c != ':')) (some (expand specifier path))

def credentialName : Text := "LoadCredentialEncrypted".toList

def commandName : Text := "ExecStartPre".toList

def readCommand (value : Text) : Directive :=
  match readTokens specifier (value.length + 1) value with
  | some tokens => .command tokens
  | none => .malformed

def interpret : Entry → Directive
  | .header name => .header name
  | .malformed => .malformed
  | .assignment key value =>
    if key = credentialName then readCredential specifier value
    else if key = commandName then readCommand specifier value
    else .other key value

def directives (text : String) : List Directive := (entries text.toList).map (interpret specifier)

end Directives

/-- The credential of a key, at its place in the store. -/
def credentialOf (store key : String) : Directive :=
  .credential (literal key.toList) (some (literal (store ++ "/" ++ key).toList))

/-- The command of a render, word by word. -/
def commandOf (files : String × String) : Directive :=
  .command (["/usr/local/bin/shellflow", "cred-env", "render", files.1, files.2].map fun word =>
    .word (literal word.toList))

/-- One section, the credentials of the keys and the commands of the renders, and nothing else. -/
def expected (m : UnitManifest) (credentialKeys : List String) : List Directive :=
  .header "Service".toList ::
    ((m.selected credentialKeys).map (credentialOf m.storeDir) ++ m.renders.map commandOf)

section Clean
variable (specifier : Char → Bool)

/-- A key and the directory of its store that stand in the line as they are. -/
structure CleanCredential (store key : String) : Prop where
  eolFree : ∀ c ∈ key.toList ++ (store ++ "/" ++ key).toList, isEol c = false
  noColon : ':' ∉ key.toList
  head : key.toList.head?.any isBlank = false
  last : (store ++ "/" ++ key).toList.getLast?.any isBlank = false
  complete : isContinued (store ++ "/" ++ key).toList = false
  idPlain : hasSpecifier specifier key.toList = false
  pathPlain : hasSpecifier specifier (store ++ "/" ++ key).toList = false

/-- A template and a target that are one word each. -/
structure CleanRender (files : String × String) : Prop where
  eolFree : ∀ c ∈ files.1.toList ++ files.2.toList, isEol c = false
  template : CleanWord specifier files.1.toList
  target : CleanWord specifier files.2.toList
  last : files.2.toList.getLast?.any isBlank = false

end Clean

section Lines
variable {specifier : Char → Bool}

theorem isKey_credential : IsKey credentialName := ⟨by decide, by decide, by decide, by decide⟩

theorem isKey_command : IsKey commandName := ⟨by decide, by decide, by decide, by decide⟩

theorem eolFree_credentialName : ∀ c ∈ credentialName, isEol c = false :=
  eolFree_of_all (by decide)

theorem eolFree_commandName : ∀ c ∈ commandName, isEol c = false := eolFree_of_all (by decide)

theorem toList_credentialLine (store key : String) : (credentialLine store key).toList =
    credentialName ++ '=' :: (key.toList ++ ':' :: (store ++ "/" ++ key).toList) := by
  have hkey : "LoadCredentialEncrypted=".toList = credentialName ++ ['='] := rfl
  have hcolon : ":".toList = [':'] := rfl
  unfold credentialLine
  simp only [String.toList_append, List.append_assoc]
  rw [hkey, hcolon, List.append_assoc, List.singleton_append, List.singleton_append]

theorem readCredential_some {value : Text} {id path : List Item}
    (h : readCredential specifier value = .credential id (some path)) :
    ∃ s t, value = s ++ ':' :: t ∧ ':' ∉ s ∧ expand specifier s = id ∧ expand specifier t = path := by
  have hsplit := List.takeWhile_append_dropWhile (p := fun c => c != ':') (l := value)
  unfold readCredential at h
  cases hdrop : value.dropWhile fun c => c != ':' with
  | nil =>
    rw [hdrop] at h
    cases h
  | cons c t =>
    rw [hdrop] at h hsplit
    have hcolon := List.head?_dropWhile_not (fun c => c != ':') value
    rw [hdrop] at hcolon
    obtain rfl : c = ':' := by simpa using hcolon
    cases h
    refine ⟨_, t, hsplit.symm, fun hmem => ?_, rfl, rfl⟩
    have hne := List.mem_takeWhile_imp hmem
    cases hne

theorem readCredential_of_split {s t : Text} (hs : ':' ∉ s) :
    readCredential specifier (s ++ ':' :: t) =
      .credential (expand specifier s) (some (expand specifier t)) := by
  have hne : ∀ c ∈ s, (c != ':') = true := by
    intro c hc
    rw [bne_iff_ne]
    rintro rfl
    exact hs hc
  rw [readCredential, List.dropWhile_append_of_pos hne, List.dropWhile_cons_of_neg (by decide),
    List.takeWhile_append_of_pos hne, List.takeWhile_cons_of_neg (by decide), List.append_nil]

theorem meaning_credential (v : Text) :
    (entry (credentialName ++ '=' :: v)).map (interpret specifier) =
      some (readCredential specifier (strip (v.rdropWhile isBlank))) := by
  rw [entry_assignment isKey_credential, Option.map_some, interpret, if_pos rfl]

theorem getLast?_append_cons {c : Char} (s : Text) (t : Text) (ht : t ≠ []) :
    (s ++ c :: t).getLast? = t.getLast? := by
  rw [List.getLast?_append, List.getLast?_cons, List.getLast?_eq_some_getLast ht]
  rfl

theorem reads_credential_iff (store key : String) :
    Reads (interpret specifier) (credentialLine store key).toList (credentialOf store key) ↔
      CleanCredential specifier store key := by
  have hne : (store ++ "/" ++ key).toList ≠ [] := by simp
  rw [toList_credentialLine]
  constructor
  · intro h
    have hread := h.meaning
    rw [meaning_credential, Option.some.injEq] at hread
    obtain ⟨s, t, hvalue, hcolon, hid, hpath⟩ := readCredential_some hread
    have hlen := length_value_le (key.toList ++ ':' :: (store ++ "/" ++ key).toList)
    have hids := length_expand_le specifier s
    have hpaths := length_expand_le specifier t
    rw [hid, literal, List.length_map] at hids
    rw [hpath, literal, List.length_map] at hpaths
    rw [hvalue] at hlen
    simp only [List.length_append, List.length_cons] at hlen
    obtain ⟨hfull, hhead, hlast⟩ := value_full (v := key.toList ++ ':' :: (store ++ "/" ++ key).toList)
      (by rw [hvalue]; simp only [List.length_append, List.length_cons]; omega)
    rw [hfull] at hvalue
    obtain ⟨rfl, htail⟩ := List.append_inj hvalue (by omega)
    obtain ⟨-, rfl⟩ := List.cons.inj htail
    have hcomplete := h.complete
    rw [isContinued_append_cons (by decide), isContinued_append_cons (by decide)] at hcomplete
    refine ⟨fun c hc => h.eolFree c ?_, hcolon, ?_, ?_, hcomplete,
      (expand_eq_literal specifier).mp hid, (expand_eq_literal specifier).mp hpath⟩
    · rcases List.mem_append.mp hc with hc | hc
      · exact List.mem_append_right _ (List.mem_cons_of_mem _ (List.mem_append_left _ hc))
      · exact List.mem_append_right _ (List.mem_cons_of_mem _ (List.mem_append_right _
          (List.mem_cons_of_mem _ hc)))
    · cases hkey : key.toList with
      | nil => rfl
      | cons c k =>
        rw [hkey] at hhead
        exact hhead
    · have hsame : (key.toList ++ ':' :: (store ++ "/" ++ key).toList).getLast? =
          (store ++ "/" ++ key).toList.getLast? := getLast?_append_cons _ _ hne
      rwa [hsame] at hlast
  · intro h
    have hhead : (key.toList ++ ':' :: (store ++ "/" ++ key).toList).head?.any isBlank = false := by
      have hkey := h.head
      cases hlist : key.toList with
      | nil => rfl
      | cons c k =>
        rw [hlist] at hkey
        exact hkey
    have hlast : (key.toList ++ ':' :: (store ++ "/" ++ key).toList).getLast?.any isBlank = false := by
      rw [getLast?_append_cons _ _ hne]
      exact h.last
    refine ⟨fun c hc => ?_, isKey_credential.isComment, ?_, ?_⟩
    · rcases List.mem_append.mp hc with hc | hc
      · exact eolFree_credentialName c hc
      · rcases List.mem_cons.mp hc with rfl | hc
        · rfl
        · rcases List.mem_append.mp hc with hc | hc
          · exact h.eolFree c (List.mem_append_left _ hc)
          · rcases List.mem_cons.mp hc with rfl | hc
            · rfl
            · exact h.eolFree c (List.mem_append_right _ hc)
    · rw [isContinued_append_cons (by decide), isContinued_append_cons (by decide)]
      exact h.complete
    · rw [meaning_credential, value_of_clean hhead hlast, readCredential_of_split h.noColon,
        (expand_eq_literal specifier).mpr h.idPlain, (expand_eq_literal specifier).mpr h.pathPlain]
      rfl

end Lines

section Commands
variable {specifier : Char → Bool}

theorem cleanWord_fixed {w : Text} (hne : w ≠ []) (hplain : isPlain w 0 = true) (hlong : 2 < w.length)
    (hpercent : '%' ∉ w) : CleanWord specifier w := by
  refine ⟨hne, hplain, ?_, ?_, hasSpecifier_of_noPercent specifier hpercent⟩
  · rintro rfl
    exact absurd hlong (by decide)
  · rintro rfl
    exact absurd hlong (by decide)

def helperWord : Text := "/usr/local/bin/shellflow".toList

def toolWord : Text := "cred-env".toList

def verbWord : Text := "render".toList

theorem cleanWord_helper : CleanWord specifier helperWord :=
  cleanWord_fixed (by decide) (by decide) (by decide) (by decide)

theorem cleanWord_tool : CleanWord specifier toolWord :=
  cleanWord_fixed (by decide) (by decide) (by decide) (by decide)

theorem cleanWord_verb : CleanWord specifier verbWord :=
  cleanWord_fixed (by decide) (by decide) (by decide) (by decide)

/-- The value of the line of a render. -/
def commandValue (t u : Text) : Text :=
  helperWord ++ ' ' :: (toolWord ++ ' ' :: (verbWord ++ ' ' :: (t ++ ' ' :: u)))

theorem toList_renderLine (files : String × String) : (renderLine files).toList =
    commandName ++ '=' :: commandValue files.1.toList files.2.toList := by
  have hfixed : "ExecStartPre=/usr/local/bin/shellflow cred-env render ".toList =
      commandName ++ '=' :: (helperWord ++ ' ' :: (toolWord ++ ' ' :: (verbWord ++ [' ']))) := rfl
  have hblank : " ".toList = [' '] := rfl
  unfold renderLine commandValue
  simp only [String.toList_append, List.append_assoc]
  rw [hfixed, hblank]
  simp only [List.append_assoc, List.cons_append, List.nil_append]

theorem readTokens_commandValue (n : Nat) (t u : Text) :
    readTokens specifier (n + 3) (commandValue t u) =
      (readTokens specifier n (t ++ ' ' :: u)).map fun tokens =>
        [.word (literal helperWord), .word (literal toolWord), .word (literal verbWord)] ++ tokens := by
  rw [commandValue, readTokens_clean cleanWord_helper rfl, readTokens_blank,
    readTokens_clean cleanWord_tool rfl, readTokens_blank, readTokens_clean cleanWord_verb rfl,
    readTokens_blank, Option.map_map, Option.map_map]
  rfl

theorem commandOf_eq (files : String × String) : commandOf files =
    .command ([.word (literal helperWord), .word (literal toolWord), .word (literal verbWord)] ++
      [.word (literal files.1.toList), .word (literal files.2.toList)]) := rfl

theorem length_commandValue (t u : Text) :
    (commandValue t u).length = t.length + u.length + 42 := by
  have hhelper : helperWord.length = 24 := rfl
  have htool : toolWord.length = 8 := rfl
  have hverb : verbWord.length = 6 := rfl
  rw [commandValue]
  simp only [List.length_append, List.length_cons, hhelper, htool, hverb]
  omega

/-- What stands in the template or in the target stands in the value. -/
theorem mem_commandValue {t u : Text} {c : Char} (h : c ∈ t ++ u) : c ∈ commandValue t u := by
  have hpair : c ∈ t ++ ' ' :: u := by
    rcases List.mem_append.mp h with hc | hc
    · exact List.mem_append_left _ hc
    · exact List.mem_append_right _ (List.mem_cons_of_mem _ hc)
  exact List.mem_append_right _ (List.mem_cons_of_mem _ (List.mem_append_right _
    (List.mem_cons_of_mem _ (List.mem_append_right _ (List.mem_cons_of_mem _ hpair)))))

theorem eolFree_fixed : ∀ c ∈ helperWord ++ ' ' :: (toolWord ++ ' ' :: (verbWord ++ [' '])),
    isEol c = false := eolFree_of_all (by decide)

theorem eolFree_commandValue {t u : Text} (h : ∀ c ∈ t ++ u, isEol c = false) :
    ∀ c ∈ commandValue t u, isEol c = false := by
  have hsplit : commandValue t u =
      (helperWord ++ ' ' :: (toolWord ++ ' ' :: (verbWord ++ [' ']))) ++ (t ++ ' ' :: u) := by
    simp only [commandValue, List.append_assoc, List.cons_append, List.nil_append]
  intro c hc
  rw [hsplit] at hc
  rcases List.mem_append.mp hc with hc | hc
  · exact eolFree_fixed c hc
  · rcases List.mem_append.mp hc with hc | hc
    · exact h c (List.mem_append_left _ hc)
    · rcases List.mem_cons.mp hc with rfl | hc
      · rfl
      · exact h c (List.mem_append_right _ hc)

theorem getLast?_commandValue (t : Text) {u : Text} (hu : u ≠ []) :
    (commandValue t u).getLast? = u.getLast? := by
  unfold commandValue
  rw [getLast?_append_cons _ _ (by simp), getLast?_append_cons _ _ (by simp),
    getLast?_append_cons _ _ (by simp), getLast?_append_cons _ _ hu]

theorem room_commandOf (t u : Text) :
    room ([.word (literal helperWord), .word (literal toolWord), .word (literal verbWord)] ++
      [.word (literal t), .word (literal u)]) = t.length + u.length + 43 := by
  have hhelper : helperWord.length = 24 := rfl
  have htool : toolWord.length = 8 := rfl
  have hverb : verbWord.length = 6 := rfl
  simp only [room, List.cons_append, List.nil_append, List.map_cons, List.map_nil, List.sum_cons,
    List.sum_nil, Token.length, literal, List.length_map, hhelper, htool, hverb]
  omega

theorem meaning_command (v : Text) :
    (entry (commandName ++ '=' :: v)).map (interpret specifier) =
      some (readCommand specifier (strip (v.rdropWhile isBlank))) := by
  have hne : commandName ≠ credentialName := by decide
  rw [entry_assignment isKey_command, Option.map_some, interpret, if_neg hne, if_pos rfl]

theorem readCommand_eq {value : Text} {tokens : List Token}
    (h : readCommand specifier value = .command tokens) :
    readTokens specifier (value.length + 1) value = some tokens := by
  unfold readCommand at h
  cases hread : readTokens specifier (value.length + 1) value with
  | none =>
    rw [hread] at h
    cases h
  | some found =>
    rw [hread] at h
    cases h
    rfl

theorem reads_command_iff (files : String × String) :
    Reads (interpret specifier) (renderLine files).toList (commandOf files) ↔
      CleanRender specifier files := by
  obtain ⟨t, u⟩ := files
  have hlength := length_commandValue t.toList u.toList
  have hfuel : (commandValue t.toList u.toList).length + 1 =
      (t.toList.length + u.toList.length + 38) + 2 + 3 := by omega
  rw [toList_renderLine]
  constructor
  · intro h
    have hread := h.meaning
    rw [meaning_command, Option.some.injEq] at hread
    have htokens : readTokens specifier
        ((strip ((commandValue t.toList u.toList).rdropWhile isBlank)).length + 1)
        (strip ((commandValue t.toList u.toList).rdropWhile isBlank)) =
          some ([.word (literal helperWord), .word (literal toolWord), .word (literal verbWord)] ++
            [.word (literal t.toList), .word (literal u.toList)]) := readCommand_eq hread
    have hroom := room_readTokens_le htokens
    have hskip := (List.dropWhile_suffix
      (l := strip ((commandValue t.toList u.toList).rdropWhile isBlank)) isBlank).length_le
    have hlen := length_value_le (commandValue t.toList u.toList)
    have htaken := room_commandOf t.toList u.toList
    obtain ⟨hfull, -, hlast⟩ := value_full (v := commandValue t.toList u.toList) (by omega)
    rw [hfull, hfuel, readTokens_commandValue] at htokens
    obtain ⟨tokens, hpair, hcons⟩ := Option.map_eq_some_iff.mp htokens
    rw [List.append_cancel_left hcons] at hpair
    obtain ⟨ht, hu⟩ := readTokens_pair_iff.mp hpair
    refine ⟨fun c hc => h.eolFree c ?_, ht, hu, ?_⟩
    · exact List.mem_append_right _ (List.mem_cons_of_mem _ (mem_commandValue hc))
    · rwa [getLast?_commandValue _ hu.nonempty] at hlast
  · intro h
    have hhead : (commandValue t.toList u.toList).head?.any isBlank = false := rfl
    have hlast : (commandValue t.toList u.toList).getLast?.any isBlank = false := by
      rw [getLast?_commandValue _ h.target.nonempty]
      exact h.last
    refine ⟨?_, isKey_command.isComment, ?_, ?_⟩
    · intro c hc
      rcases List.mem_append.mp hc with hc | hc
      · exact eolFree_commandName c hc
      · rcases List.mem_cons.mp hc with rfl | hc
        · rfl
        · exact eolFree_commandValue h.eolFree c hc
    · apply isContinued_of_getLast?
      rw [getLast?_append_cons _ _ (by simp [commandValue]), getLast?_commandValue _ h.target.nonempty]
      exact getLast?_of_plain h.target.plain (Nat.zero_le 1) nofun
    · rw [meaning_command, value_of_clean hhead hlast, readCommand, hfuel, readTokens_commandValue,
        readTokens_pair_iff.mpr ⟨h.template, h.target⟩]
      rfl

end Commands

section Render
variable (specifier : Char → Bool)

/-- The characters that a line needs at least to say what the directive says. -/
def Directive.cost : Directive → Nat
  | .header name => name.length + 2
  | .credential id none => id.length + 24
  | .credential id (some path) => id.length + path.length + 25
  | .command tokens => room tokens + 12
  | .other _ _ => 0
  | .malformed => 0

theorem cost_readCredential_le (value : Text) :
    (readCredential specifier value).cost ≤ value.length + 24 := by
  have hsplit := congrArg List.length
    (List.takeWhile_append_dropWhile (p := fun c => c != ':') (l := value))
  have hid := length_expand_le specifier (value.takeWhile fun c => c != ':')
  have hwhole := length_expand_le specifier value
  unfold readCredential
  cases hdrop : value.dropWhile fun c => c != ':' with
  | nil =>
    rw [Directive.cost]
    omega
  | cons c path =>
    have hpath := length_expand_le specifier path
    rw [hdrop, List.length_append, List.length_cons] at hsplit
    rw [Directive.cost]
    omega

theorem cost_readCommand_le (value : Text) :
    (readCommand specifier value).cost ≤ value.length + 13 := by
  unfold readCommand
  cases hread : readTokens specifier (value.length + 1) value with
  | none => exact Nat.zero_le _
  | some tokens =>
    have hroom := room_readTokens_le hread
    have hskip := (List.dropWhile_suffix (l := value) isBlank).length_le
    rw [Directive.cost]
    omega

theorem cost_interpret_le (e : Entry) : (interpret specifier e).cost ≤ e.cost := by
  cases e with
  | header name => exact Nat.le_refl _
  | malformed => exact Nat.le_refl _
  | assignment key value =>
    rw [interpret, Entry.cost]
    split
    · rename_i hkey
      have hcost := cost_readCredential_le specifier value
      have hlength : credentialName.length = 23 := rfl
      rw [hkey, hlength]
      omega
    · split
      · rename_i hkey
        have hcost := cost_readCommand_le specifier value
        have hlength : commandName.length = 12 := rfl
        rw [hkey, hlength]
        omega
      · exact Nat.zero_le _

theorem cost_credentialOf (store key : String) :
    (credentialOf store key).cost = (credentialLine store key).toList.length := by
  have hlength : credentialName.length = 23 := rfl
  rw [toList_credentialLine, credentialOf, Directive.cost, literal, literal, List.length_map,
    List.length_map, List.length_append, List.length_cons, List.length_append, List.length_cons,
    hlength]
  omega

theorem cost_commandOf (files : String × String) :
    (commandOf files).cost = (renderLine files).toList.length := by
  have hlength : commandName.length = 12 := rfl
  rw [toList_renderLine, commandOf_eq, Directive.cost, room_commandOf, List.length_append,
    List.length_cons, length_commandValue, hlength]
  omega

/-- The lines of the body with what they stand for. -/
def body (m : UnitManifest) (credentialKeys : List String) : List (Text × Directive) :=
  (m.selected credentialKeys).map (fun key => ((credentialLine m.storeDir key).toList,
      credentialOf m.storeDir key)) ++
    m.renders.map fun files => ((renderLine files).toList, commandOf files)

theorem cost_body (m : UnitManifest) (credentialKeys : List String) :
    ∀ p ∈ body m credentialKeys, p.2.cost = p.1.length := by
  intro p hp
  rcases List.mem_append.mp hp with hp | hp
  · obtain ⟨key, -, rfl⟩ := List.mem_map.mp hp
    exact cost_credentialOf m.storeDir key
  · obtain ⟨files, -, rfl⟩ := List.mem_map.mp hp
    exact cost_commandOf files

theorem toList_join (ls : List String) :
    (String.join (ls.map fun line => line ++ "\n")).toList = UnitFile.unlines (ls.map String.toList) := by
  induction ls with
  | nil => rfl
  | cons l ls ih =>
    have heol : "\n".toList = ['\n'] := rfl
    rw [List.map_cons, String.join_cons, String.toList_append, String.toList_append, ih, heol,
      List.map_cons, unlines_cons, List.append_assoc, List.singleton_append]

theorem toList_render (m : UnitManifest) (credentialKeys : List String) :
    (render m credentialKeys).text.toList =
      UnitFile.unlines (headerLines.map String.toList) ++
        UnitFile.unlines ((body m credentialKeys).map Prod.fst) := by
  have hbody : (body m credentialKeys).map Prod.fst =
      ((m.selected credentialKeys).map (credentialLine m.storeDir) ++ m.renders.map renderLine).map
        String.toList := by
    simp only [body, List.map_append, List.map_map, Function.comp_def]
  rw [hbody, render, toList_join, List.append_assoc, List.map_append]
  exact List.flatMap_append

theorem expected_eq (m : UnitManifest) (credentialKeys : List String) :
    expected m credentialKeys =
      .header "Service".toList :: (body m credentialKeys).map Prod.snd := by
  simp only [expected, body, List.map_append, List.map_map, Function.comp_def]

/-- The comments in front, a blank line and the one section. -/
theorem headerLines_read : ((headerLines.map String.toList).all fun l =>
      l.all (fun c => !isEol c) && !isContinued l) = true ∧
    ((headerLines.map String.toList).filter fun l => !isComment l).filterMap entry =
      [.header "Service".toList] := by
  decide

theorem headerLines_eolFree : ∀ l ∈ headerLines.map String.toList, ∀ c ∈ l, isEol c = false := by
  intro l hl c hc
  have hline := (Bool.and_eq_true_iff.mp (List.all_eq_true.mp headerLines_read.1 l hl)).1
  simpa using List.all_eq_true.mp hline c hc

theorem headerLines_complete : ∀ l ∈ headerLines.map String.toList, isContinued l = false := by
  intro l hl
  have hline := (Bool.and_eq_true_iff.mp (List.all_eq_true.mp headerLines_read.1 l hl)).2
  simpa using hline

theorem directives_render (m : UnitManifest) (credentialKeys : List String) :
    directives specifier (render m credentialKeys).text = .header "Service".toList ::
      (entries (UnitFile.unlines ((body m credentialKeys).map Prod.fst))).map (interpret specifier) := by
  rw [directives, toList_render, entries_unlines_append _ headerLines_eolFree headerLines_complete,
    headerLines_read.2]
  rfl

/-- The drop-in says what the manifest names and nothing else exactly when every key, the directory of
the store, and both paths of every render stand in their lines as they are. -/
theorem render_exact_iff (m : UnitManifest) (credentialKeys : List String) :
    directives specifier (render m credentialKeys).text = expected m credentialKeys ↔
      (∀ key ∈ m.selected credentialKeys, CleanCredential specifier m.storeDir key) ∧
        ∀ files ∈ m.renders, CleanRender specifier files := by
  rw [directives_render, expected_eq, List.cons.injEq, eq_self, true_and,
    entries_unlines_iff (interpret specifier) (cost_interpret_le specifier) _
      (cost_body m credentialKeys), body, List.forall_mem_append, List.forall_mem_map,
    List.forall_mem_map]
  exact and_congr (forall₂_congr fun key _ => reads_credential_iff m.storeDir key)
    (forall₂_congr fun files _ => reads_command_iff files)

end Render

section Names
variable {specifier : Char → Bool}

/-- A character that a line keeps wherever it stands. -/
def isInert (c : Char) : Bool := !isEol c && !isBlank c && c != ':' && c != '%' && c != '\\'

theorem isInert_of_alphanumeric {c : Char} (h : isAsciiAlphanumeric c = true) : isInert c = true := by
  have hne : ∀ d : Char, isAsciiAlphanumeric d = false → c ≠ d := by
    rintro d hd rfl
    rw [h] at hd
    cases hd
  simp [isInert, isEol, isBlank, hne '\n' rfl, hne '\r' rfl, hne '\x00' rfl, hne ' ' rfl, hne '\t' rfl,
    hne ':' rfl, hne '%' rfl, hne '\\' rfl]

theorem inert_of_isValidVarName {key : String} (h : isValidVarName key = true) :
    ∀ c ∈ key.toList, isInert c = true := by
  have hchar : ∀ c : Char, (isAsciiAlphanumeric c || c == '_') = true → isInert c = true := by
    intro c hc
    rcases Bool.or_eq_true_iff.mp hc with hc | hc
    · exact isInert_of_alphanumeric hc
    · rw [beq_iff_eq.mp hc]
      rfl
  unfold isValidVarName at h
  cases hkey : key.toList with
  | nil => exact fun c hc => absurd hc List.not_mem_nil
  | cons first rest =>
    rw [hkey] at h
    obtain ⟨hfirst, hrest⟩ := Bool.and_eq_true_iff.mp h
    refine List.forall_mem_cons.mpr ⟨hchar first ?_, fun c hc => hchar c (List.all_eq_true.mp hrest c hc)⟩
    rcases Bool.or_eq_true_iff.mp hfirst with hletter | hunder
    · rw [isAsciiAlphanumeric, hletter, Bool.true_or, Bool.true_or]
    · rw [hunder, Bool.or_true]

theorem inert_of_isServiceName {name : String} (h : isServiceName name = true) :
    ∀ c ∈ name.toList, isInert c = true := by
  intro c hc
  rw [isServiceName, Bool.and_eq_true_iff] at h
  have hall := List.all_eq_true.mp h.2 c hc
  rw [Bool.or_eq_true_iff, Bool.or_eq_true_iff, Bool.or_eq_true_iff] at hall
  rcases hall with ((hc | hc) | hc) | hc
  · exact isInert_of_alphanumeric hc
  · rw [beq_iff_eq.mp hc]
    rfl
  · rw [beq_iff_eq.mp hc]
    rfl
  · rw [beq_iff_eq.mp hc]
    rfl

theorem inert_joinPath {base path : String} (hbase : ∀ c ∈ base.toList, isInert c = true)
    (hpath : ∀ c ∈ path.toList, isInert c = true) : ∀ c ∈ (joinPath base path).toList, isInert c = true := by
  rw [joinPath]
  split
  · exact hpath
  · intro c hc
    rw [String.toList_append, String.toList_append] at hc
    rcases List.mem_append.mp hc with hc | hc
    · rcases List.mem_append.mp hc with hc | hc
      · exact hbase c hc
      · rw [List.mem_singleton.mp hc]
        rfl
    · exact hpath c hc

theorem cleanCredential_of_inert {store key : String} (hstore : ∀ c ∈ store.toList, isInert c = true)
    (hkey : ∀ c ∈ key.toList, isInert c = true) : CleanCredential specifier store key := by
  have hpath : ∀ c ∈ (store ++ "/" ++ key).toList, isInert c = true := by
    intro c hc
    rw [String.toList_append, String.toList_append] at hc
    rcases List.mem_append.mp hc with hc | hc
    · rcases List.mem_append.mp hc with hc | hc
      · exact hstore c hc
      · rw [List.mem_singleton.mp hc]
        rfl
    · exact hkey c hc
  have hblank : ∀ {c : Char}, isInert c = true → isBlank c = false := by
    intro c hc
    simp only [isInert, Bool.and_eq_true, Bool.not_eq_true'] at hc
    exact hc.1.1.1.2
  have hends : ∀ (s : Text) (c : Char), (∀ d ∈ s, isInert d = true) → isInert c = false → c ∉ s := by
    intro s c hs hc hmem
    rw [hs c hmem] at hc
    cases hc
  refine ⟨?_, hends _ ':' hkey rfl, ?_, ?_, ?_, ?_, ?_⟩
  · intro c hc
    have hinert : isInert c = true := by
      rcases List.mem_append.mp hc with hc | hc
      · exact hkey c hc
      · exact hpath c hc
    simp only [isInert, Bool.and_eq_true, Bool.not_eq_true'] at hinert
    exact hinert.1.1.1.1
  · cases hlist : key.toList with
    | nil => rfl
    | cons c k => exact hblank (hkey c (hlist ▸ List.mem_cons_self))
  · cases hlast : (store ++ "/" ++ key).toList.getLast? with
    | none => rfl
    | some c => exact hblank (hpath c (List.mem_of_getLast? hlast))
  · exact isContinued_of_getLast? fun hlast =>
      hends _ '\\' hpath rfl (List.mem_of_getLast? hlast)
  · exact hasSpecifier_of_noPercent specifier (hends _ '%' hkey rfl)
  · exact hasSpecifier_of_noPercent specifier (hends _ '%' hpath rfl)

/-- The names that are checked are clean: the keys of a sealed file, in the store of the service. -/
theorem cleanCredential_of_names {service key : String} (hservice : isServiceName service = true)
    (hkey : isValidVarName key = true) :
    CleanCredential specifier (joinPath credstoreRoot service) key := by
  refine cleanCredential_of_inert (inert_joinPath ?_ (inert_of_isServiceName hservice))
    (inert_of_isValidVarName hkey)
  have hroot : credstoreRoot.toList.all isInert = true := by decide
  exact List.all_eq_true.mp hroot

end Names

section Parsed

theorem map_bind {ε α β γ : Type} (x : Except ε α) (f : α → Except ε β) (g : β → γ) :
    (x >>= f).map g = x >>= fun a => (f a).map g := by
  cases x <;> rfl

/-- The manifest is the one that the check reads, with three more of its fields. -/
theorem toServiceManifest_parse (toml : String → Except String TomlDoc) (service text : String) :
    (UnitManifest.parse toml service text).map UnitManifest.toServiceManifest =
      ServiceManifest.parse toml service text := by
  simp only [UnitManifest.parse, ServiceManifest.parse, map_bind]
  rfl

def brokenText : String :=
  "host = \"api\"\nunit = \"dufs.service\"\n[render]\ntemplate = \"/t.tmpl\"\n" ++
    "target = \"/run/c.yaml\\nExecStartPre=/bin/true\"\n"

def brokenDoc : TomlDoc :=
  [("host", .str "api"), ("unit", .str "dufs.service"),
    ("render", .table [("template", .str "/t.tmpl"),
      ("target", .str "/run/c.yaml\nExecStartPre=/bin/true")])]

def brokenManifest : UnitManifest :=
  ⟨⟨"dufs", "api", "dufs.service"⟩, none, [], [("/t.tmpl", "/run/c.yaml\nExecStartPre=/bin/true")]⟩

/-- The end of a line in a target begins a command of its own. -/
theorem target_adds_command :
    ¬ ∃ specifier : Char → Bool, ∀ (toml : String → Except String TomlDoc) (service text : String)
      (m : UnitManifest) (credentialKeys : List String),
      UnitManifest.parse toml service text = .ok m →
      (∀ key ∈ credentialKeys, isValidVarName key = true) →
        directives specifier (render m credentialKeys).text = expected m credentialKeys := by
  rintro ⟨specifier, hall⟩
  have hexact := hall (fun _ => .ok brokenDoc) "dufs" brokenText brokenManifest []
    (by decide) (fun key hkey => absurd hkey List.not_mem_nil)
  have hcount := congrArg List.length hexact
  have hbody : (body brokenManifest []).map Prod.fst = [commandName ++ '=' ::
      commandValue "/t.tmpl".toList "/run/c.yaml\nExecStartPre=/bin/true".toList] := by
    rw [← toList_renderLine ("/t.tmpl", "/run/c.yaml\nExecStartPre=/bin/true")]
    rfl
  have hentries : (entries (UnitFile.unlines [commandName ++ '=' ::
      commandValue "/t.tmpl".toList "/run/c.yaml\nExecStartPre=/bin/true".toList])).length = 2 := by
    decide
  have hexpected : (expected brokenManifest []).length = 2 := rfl
  rw [directives_render, List.length_cons, List.length_map, hbody, hentries, hexpected] at hcount
  omega

end Parsed

end Shellflow.UnitRender
