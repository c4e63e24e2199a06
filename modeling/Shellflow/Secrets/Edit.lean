import Shellflow.Lib.BufRead
import Shellflow.Secrets.EnvFile
import Shellflow.Secrets.Fsx

/-! `secret edit`: the plaintext is staged under a name of its own for the editor, and the edited
text takes the place of the ciphertext. -/
namespace Shellflow.SecretEdit
open Fsx

abbrev Bytes := List UInt8

/-- How the operations on the plaintext's staging file fail. -/
structure PlainFaults where
  create : Option ErrorKind
  write : Option (Nat × ErrorKind)
  flush : Option ErrorKind
  permissions : Option ErrorKind

/-- The recipients and identities of age, with what it makes of them. -/
structure Age (Recipient Identity : Type) where
  toPublic : Identity → Recipient
  text : Recipient → String
  encrypt : Bytes → List Recipient → Except String Bytes
  decrypt : Bytes → Identity → Except String Bytes

/-- A call of `edit`: what it is given, and how everything that it calls ends. -/
structure EditCall (Recipient Identity : Type) where
  age : Age Recipient Identity
  recipients : Except String (List Recipient)
  identity : Except String Identity
  file : String
  readFile : Option ErrorKind
  tempDir : String
  umask : Nat
  pid : Nat
  nonce : Nat
  plain : PlainFaults
  editor : FileSystem → FileSystem × Option String
  readBack : Option ErrorKind
  seed : Nat
  staging : Nat → StageFaults
  publish : Option ErrorKind
  openDir : Option ErrorKind
  syncDir : Option ErrorKind

/-- `fs::read`: symbolic links are followed, up to a bound. -/
def contents (fs : FileSystem) : Nat → String → Option Bytes
  | 0, _ => none
  | links + 1, path =>
    match fs path with
    | some (.file bytes _) => some bytes
    | some (.link target) => contents fs links target
    | _ => none

def maxLinks : Nat := 40

def read (fs : FileSystem) (fault : Option ErrorKind) (path report : String) :
    Except String Bytes :=
  match fault, contents fs maxLinks path with
  | none, some bytes => .ok bytes
  | _, _ => .error report

def secretFileMode : Nat := 384

/-- The edited text must be an env file. -/
def validatePlaintextEnv (bytes : Bytes) : Except String Unit :=
  if (BufRead.decode bytes).2 then
    match parseEnvFile (String.ofList (BufRead.decode bytes).1) with
    | .ok _ => .ok ()
    | .error e => .error e.display
  else .error "edited plaintext is not valid UTF-8"

namespace EditCall
variable {Recipient Identity : Type} (e : EditCall Recipient Identity) (fs : FileSystem)

def noRecipients : String :=
  "no recipients given: re-encrypting without them would drop every operator " ++
    "(use `-r age1...` or `--recipients-dir`)"

def lockedOut (ownPublic : String) : String :=
  s!"the recipient list does not include your own public key ({ownPublic}); " ++
    "re-encrypting would lock you out of this file"

/-- `temp_plaintext_path`. -/
def temp : String :=
  joinName e.tempDir ("shellflow-edit-" ++ toString e.pid ++ "-" ++ toString e.nonce ++ ".env")

/-- Everything in front of the staging file: the recipients and the plaintext. -/
def prepare : Except String (List Recipient × Bytes) := do
  let recipients ← e.recipients
  if recipients.isEmpty then .error noRecipients
  else do
    let cipher ← read fs e.readFile e.file "failed to read input"
    let identity ← e.identity
    let ownPublic := e.age.text (e.age.toPublic identity)
    if recipients.any fun recipient => e.age.text recipient == ownPublic then do
      let plain ← e.age.decrypt cipher identity
      .ok (recipients, plain)
    else .error (lockedOut ownPublic)

/-- `TempPlaintext::write`. -/
def writePlain (plain : Bytes) : FileSystem × Option ErrorKind :=
  let created (bytes : Bytes) : Node :=
    .file bytes (secretFileMode ^^^ (secretFileMode &&& e.umask))
  match e.plain.create with
  | some kind => (fs, some kind)
  | none =>
    if fs e.temp ≠ none then (fs, some .alreadyExists)
    else
      match e.plain.write with
      | some (written, kind) =>
        (Function.update fs e.temp (some (created (plain.take written))), some kind)
      | none =>
        match e.plain.flush.or e.plain.permissions with
        | some kind => (Function.update fs e.temp (some (created plain)), some kind)
        | none => (Function.update fs e.temp (some (.file plain secretFileMode)), none)

/-- The new ciphertext, from what the editor left. -/
def encrypted (recipients : List Recipient) : Except String Bytes := do
  let edited ← read fs e.readBack e.temp "failed to read edited plaintext"
  validatePlaintextEnv edited
  e.age.encrypt edited recipients

/-- `write_secret_file`. -/
def writeCall (cipher : Bytes) : WriteCall where
  path := e.file
  bytes := cipher
  mode := secretFileMode
  umask := e.umask
  pid := e.pid
  seed := e.seed
  staging := e.staging
  publish := e.publish
  openDir := e.openDir
  syncDir := e.syncDir

/-- The steps between the staging of the plaintext and its removal. -/
def reencrypt (recipients : List Recipient) : FileSystem × Except String Unit :=
  match e.editor fs with
  | (fs, some err) => (fs, .error err)
  | (fs, none) =>
    match e.encrypted fs recipients with
    | .error err => (fs, .error err)
    | .ok cipher =>
      match (e.writeCall cipher).writeAtomic fs with
      | (fs, .ok ()) => (fs, .ok ())
      | (fs, .error _) => (fs, .error s!"failed to write `{e.file}`")

/-- The guard removes the staging file however the steps end. -/
def edit : FileSystem × Except String Unit :=
  match e.prepare fs with
  | .error err => (fs, .error err)
  | .ok (recipients, plain) =>
    match e.writePlain fs plain with
    | (fs, some _) => (removeFile fs e.temp, .error "failed to write temporary plaintext")
    | (fs, none) =>
      let (fs, result) := e.reencrypt fs recipients
      (removeFile fs e.temp, result)

/-- The edited text: what the editor leaves of the staged plaintext. -/
def edited (plain : Bytes) : Option Bytes :=
  contents (e.editor (Function.update fs e.temp (some (.file plain secretFileMode)))).1 maxLinks
    e.temp

/-- On success the file decrypts, for every recipient and so for the operator, to the edited text;
otherwise it is as it was, a failed flush of the directory aside. Nothing else has changed. -/
structure EditSafe (out : FileSystem × Except String Unit) : Prop where
  done : out.2 = .ok () → ∃ recipients plain identity cipher text,
    e.prepare fs = .ok (recipients, plain) ∧ e.identity = .ok identity ∧
    e.age.toPublic identity ∈ recipients ∧ e.edited fs plain = some text ∧
    contents out.1 maxLinks e.file = some cipher ∧
    ∀ id, e.age.toPublic id ∈ recipients → e.age.decrypt cipher id = .ok text
  failed : ∀ err, out.2 = .error err → out.1 e.file = fs e.file ∨
    (e.openDir.or e.syncDir ≠ none ∧ ∃ cipher, out.1 e.file = some (.file cipher secretFileMode))
  others : ∀ path, path ≠ e.file → out.1 path = fs path

/-- When the plaintext is to be staged, nothing but a directory stands under its name, and when the
ciphertext is to be written, the attempts to stage it are clean. -/
def CleanEdit : Prop :=
  ∀ recipients plain, e.prepare fs = .ok (recipients, plain) →
    (fs e.temp = none ∨ fs e.temp = some .directory) ∧
    ∀ fs₁ fs₂ cipher, e.writePlain fs plain = (fs₁, none) → e.editor fs₁ = (fs₂, none) →
      e.encrypted fs₂ recipients = .ok cipher → (e.writeCall cipher).CleanStaging fs

end EditCall

section Steps
variable {Recipient Identity : Type} {e : EditCall Recipient Identity} {fs : FileSystem}

theorem read_ok {fault : Option ErrorKind} {path report : String} {bytes : Bytes}
    (h : read fs fault path report = .ok bytes) : contents fs maxLinks path = some bytes := by
  rw [read.eq_def] at h
  split at h
  next hcontents => rw [hcontents, Except.ok.inj h]
  next => cases h

theorem exists_of_contents {links : Nat} {path : String} {bytes : Bytes}
    (h : contents fs links path = some bytes) : fs path ≠ none := by
  intro hnone
  cases links with
  | zero => cases h
  | succ links =>
    rw [contents, hnone] at h
    cases h

theorem contents_file (links : Nat) {path : String} {bytes : Bytes} {mode : Nat}
    (h : fs path = some (.file bytes mode)) : contents fs (links + 1) path = some bytes := by
  rw [contents, h]

/-- The operator is one of the recipients, and the file was there to be read. -/
theorem prepare_ok {recipients : List Recipient} {plain : Bytes}
    (h : e.prepare fs = .ok (recipients, plain)) : fs e.file ≠ none ∧ ∃ identity,
      e.identity = .ok identity ∧
      ∃ recipient ∈ recipients, e.age.text recipient = e.age.text (e.age.toPublic identity) := by
  obtain ⟨given, hgiven, h⟩ := Fallible.bind_eq_ok.mp h
  split at h
  · cases h
  · obtain ⟨cipher, hcipher, h⟩ := Fallible.bind_eq_ok.mp h
    obtain ⟨identity, hidentity, h⟩ := Fallible.bind_eq_ok.mp h
    dsimp only at h
    split at h
    next hown =>
      obtain ⟨text, htext, h⟩ := Fallible.bind_eq_ok.mp h
      cases h
      obtain ⟨recipient, hmem, heq⟩ := List.any_eq_true.mp hown
      exact ⟨exists_of_contents (read_ok hcipher), identity, hidentity, recipient, hmem,
        beq_iff_eq.mp heq⟩
    next => cases h

theorem encrypted_ok {recipients : List Recipient} {cipher : Bytes}
    (h : e.encrypted fs recipients = .ok cipher) : ∃ text,
      contents fs maxLinks e.temp = some text ∧ e.age.encrypt text recipients = .ok cipher := by
  obtain ⟨text, htext, h⟩ := Fallible.bind_eq_ok.mp h
  obtain ⟨_, -, h⟩ := Fallible.bind_eq_ok.mp h
  exact ⟨text, read_ok htext, h⟩

theorem writePlain_taken (plain : Bytes) (htaken : fs e.temp ≠ none) :
    ∃ kind, e.writePlain fs plain = (fs, some kind) := by
  rw [EditCall.writePlain]
  cases e.plain.create with
  | some kind => exact ⟨kind, rfl⟩
  | none => exact ⟨.alreadyExists, if_pos htaken⟩

/-- On a free name the staging leaves a file there or nothing. -/
theorem writePlain_free (plain : Bytes) (hfree : fs e.temp = none) :
    (∃ kind, e.writePlain fs plain = (fs, some kind)) ∨
    (∃ bytes mode kind, e.writePlain fs plain =
      (Function.update fs e.temp (some (.file bytes mode)), some kind)) ∨
    e.writePlain fs plain =
      (Function.update fs e.temp (some (.file plain secretFileMode)), none) := by
  rw [EditCall.writePlain]
  cases e.plain.create with
  | some kind => exact .inl ⟨kind, rfl⟩
  | none =>
    dsimp only
    rw [if_neg (not_not.mpr hfree)]
    cases e.plain.write with
    | some fault => exact .inr (.inl ⟨_, _, _, rfl⟩)
    | none =>
      dsimp only
      cases e.plain.flush.or e.plain.permissions with
      | some kind => exact .inr (.inl ⟨_, _, _, rfl⟩)
      | none => exact .inr (.inr rfl)

theorem writePlain_ok {plain : Bytes} {fs' : FileSystem} (h : e.writePlain fs plain = (fs', none)) :
    fs e.temp = none ∧ fs' = Function.update fs e.temp (some (.file plain secretFileMode)) := by
  by_cases hfree : fs e.temp = none
  · rcases writePlain_free (e := e) plain hfree with ⟨_, hwrite⟩ | ⟨_, _, _, hwrite⟩ | hwrite
    · cases h.symm.trans hwrite
    · cases h.symm.trans hwrite
    · exact ⟨hfree, congrArg Prod.fst (h.symm.trans hwrite)⟩
  · obtain ⟨kind, hwrite⟩ := writePlain_taken (e := e) plain hfree
    cases h.symm.trans hwrite

/-- The guard undoes what stands under the free name alone. -/
theorem removeFile_restores {fs' : FileSystem} {path : String} (hfree : fs path = none)
    (hframe : ∀ q, q ≠ path → fs' q = fs q) (hnode : fs' path ≠ some .directory) :
    removeFile fs' path = fs := by
  funext q
  by_cases hq : q = path
  · rw [hq, removeFile, if_neg hnode, Function.update_self, hfree]
  · rw [removeFile_of_ne hq, hframe q hq]

theorem toList_tempName (pid nonce : Nat) : ∃ rest,
    ("shellflow-edit-" ++ toString pid ++ "-" ++ toString nonce ++ ".env").toList = 's' :: rest := by
  simp only [String.toList_append]
  exact ⟨_, rfl⟩

theorem isPart_tempName (pid nonce : Nat) :
    IsPart ("shellflow-edit-" ++ toString pid ++ "-" ++ toString nonce ++ ".env") := by
  have hdigit : ∀ n : Nat, '/' ∉ (toString n).toList := fun n h =>
    absurd (Str.isDigit_of_mem_toString h) (by decide)
  obtain ⟨rest, hrest⟩ := toList_tempName pid nonce
  refine ⟨fun h => ?_, fun h => ?_, ?_⟩
  · rw [h] at hrest
    cases hrest
  · rw [h] at hrest
    exact absurd (List.cons.inj hrest).1 (by decide)
  · simp only [String.toList_append, List.mem_append, hdigit]
    decide

/-- The names of the two staging files start differently. -/
theorem temp_ne_staging (c : WriteCall) (k : Nat) : c.temp k ≠ e.temp := by
  intro h
  have hparts := congrArg pathParts h
  rw [pathParts_temp, EditCall.temp, pathParts_joinName _ (isPart_tempName e.pid e.nonce)] at hparts
  have hlast := congrArg List.getLast? hparts
  rw [List.getLast?_concat, List.getLast?_concat] at hlast
  obtain ⟨rest, hrest⟩ := toList_tempName e.pid e.nonce
  rw [← Option.some.inj hlast, toList_stagingName] at hrest
  exact absurd (List.cons.inj hrest).1 (by decide)

end Steps

section Outcome
variable {Recipient Identity : Type} {e : EditCall Recipient Identity} {fs : FileSystem}

/-- Nothing has changed, and the call has failed. -/
theorem editSafe_of_failed (err : String) : e.EditSafe fs (fs, .error err) where
  done := nofun
  failed _ _ := .inl rfl
  others _ _ := rfl

theorem edit_taken {recipients : List Recipient} {plain : Bytes}
    (h : e.prepare fs = .ok (recipients, plain)) (htaken : fs e.temp ≠ none) :
    e.edit fs = (removeFile fs e.temp, .error "failed to write temporary plaintext") := by
  obtain ⟨kind, hwrite⟩ := writePlain_taken (e := e) plain htaken
  rw [EditCall.edit, h]
  dsimp only
  rw [hwrite]

/-- The staged plaintext. -/
def staged (e : EditCall Recipient Identity) (fs : FileSystem) (plain : Bytes) : FileSystem :=
  Function.update fs e.temp (some (.file plain secretFileMode))

theorem edit_of_writePlain {recipients : List Recipient} {plain : Bytes} {fs' : FileSystem}
    (h : e.prepare fs = .ok (recipients, plain)) (hwrite : e.writePlain fs plain = (fs', none)) :
    e.edit fs =
      (removeFile (e.reencrypt fs' recipients).1 e.temp, (e.reencrypt fs' recipients).2) := by
  rw [EditCall.edit, h]
  dsimp only
  rw [hwrite]

theorem edit_free {recipients : List Recipient} {plain : Bytes}
    (h : e.prepare fs = .ok (recipients, plain)) (hfree : fs e.temp = none) :
    (∃ err, e.edit fs = (fs, .error err)) ∨
      e.writePlain fs plain = (staged e fs plain, none) := by
  rcases writePlain_free (e := e) plain hfree with ⟨kind, hwrite⟩ | ⟨bytes, mode, kind, hwrite⟩ | hwrite
  · rw [EditCall.edit, h]
    dsimp only
    rw [hwrite]
    dsimp only
    rw [removeFile_restores hfree (fun q _ => rfl) (by rw [hfree]; nofun)]
    exact .inl ⟨_, rfl⟩
  · rw [EditCall.edit, h]
    dsimp only
    rw [hwrite]
    dsimp only
    rw [removeFile_update hfree Node.noConfusion]
    exact .inl ⟨_, rfl⟩
  · exact .inr hwrite

theorem reencrypt_of_encrypted {recipients : List Recipient} {cipher : Bytes} {fs' : FileSystem}
    (h : e.editor fs = (fs', none)) (hcipher : e.encrypted fs' recipients = .ok cipher) :
    (e.reencrypt fs recipients).1 = ((e.writeCall cipher).writeAtomic fs').1 ∧
      ((e.reencrypt fs recipients).2 = .ok () ↔
        ((e.writeCall cipher).writeAtomic fs').2 = .ok ()) := by
  rw [EditCall.reencrypt, h]
  dsimp only
  rw [hcipher]
  dsimp only
  obtain ⟨fs'', result⟩ := (e.writeCall cipher).writeAtomic fs'
  cases result with
  | ok => exact ⟨rfl, fun _ => rfl, fun _ => rfl⟩
  | error => exact ⟨rfl, nofun, nofun⟩

/-- The steps up to the final write fail with what the editor left, or the ciphertext is written. -/
theorem reencrypt_cases (e : EditCall Recipient Identity) (fs : FileSystem)
    (recipients : List Recipient) :
    (∃ err, e.reencrypt fs recipients = ((e.editor fs).1, .error err)) ∨
      ∃ fs' cipher, e.editor fs = (fs', none) ∧ e.encrypted fs' recipients = .ok cipher := by
  rw [EditCall.reencrypt]
  obtain ⟨fs', failure⟩ := e.editor fs
  cases failure with
  | some err => exact .inl ⟨err, rfl⟩
  | none =>
    dsimp only
    cases hcipher : e.encrypted fs' recipients with
    | error err => exact .inl ⟨err, rfl⟩
    | ok cipher => exact .inr ⟨fs', cipher, rfl, hcipher⟩

end Outcome

section Laws
variable {Recipient Identity : Type} (e : EditCall Recipient Identity)

/-- The editor saves the file that it is given, and touches nothing else. -/
structure SavesInPlace : Prop where
  frame : ∀ fs path, path ≠ e.temp → (e.editor fs).1 path = fs path
  file : ∀ fs, (e.editor fs).1 e.temp ≠ some .directory

/-- A ciphertext decrypts with the identity of each of its recipients, and a recipient is known by
its text. -/
structure Lawful (age : Age Recipient Identity) : Prop where
  decrypts : ∀ plain recipients cipher, age.encrypt plain recipients = .ok cipher →
    ∀ id, age.toPublic id ∈ recipients → age.decrypt cipher id = .ok plain
  text_inj : Function.Injective age.text

variable {e} {fs : FileSystem}

theorem frame_staged (heditor : SavesInPlace e) {plain : Bytes} {fs' : FileSystem}
    {failure : Option String} (h : e.editor (staged e fs plain) = (fs', failure)) :
    (∀ q, q ≠ e.temp → fs' q = fs q) ∧ fs' e.temp ≠ some .directory := by
  have hframe := heditor.frame (staged e fs plain)
  have hfile := heditor.file (staged e fs plain)
  rw [h] at hframe hfile
  exact ⟨fun q hq => (hframe q hq).trans (Function.update_of_ne hq ..), hfile⟩

theorem removeFile_update_other {fs' : FileSystem} {path : String} {node : Option Node}
    (hfree : fs e.temp = none) (hframe : ∀ q, q ≠ e.temp → fs' q = fs q)
    (hnode : fs' e.temp ≠ some .directory) (hpath : path ≠ e.temp) :
    removeFile (Function.update fs' path node) e.temp = Function.update fs path node := by
  refine removeFile_restores ?_ (fun q hq => ?_) ?_
  · rw [Function.update_of_ne hpath.symm, hfree]
  · by_cases hfile : q = path
    · rw [hfile, Function.update_self, Function.update_self]
    · rw [Function.update_of_ne hfile, Function.update_of_ne hfile, hframe q hq]
  · rw [Function.update_of_ne hpath.symm]
    exact hnode

/-- The final write, with clean attempts: the new ciphertext is there, or everything is as before. -/
theorem safe_of_write (hage : Lawful e.age) {recipients : List Recipient} {plain cipher : Bytes}
    {fs' : FileSystem} {result : Except String Unit}
    (hprepare : e.prepare fs = .ok (recipients, plain)) (hfree : fs e.temp = none)
    (heditor : e.editor (staged e fs plain) = (fs', none))
    (hframe : ∀ q, q ≠ e.temp → fs' q = fs q) (hnode : fs' e.temp ≠ some .directory)
    (hcipher : e.encrypted fs' recipients = .ok cipher)
    (hresult : result = .ok () ↔ ((e.writeCall cipher).writeAtomic fs').2 = .ok ())
    (hclean : (e.writeCall cipher).CleanStaging fs) :
    e.EditSafe fs (removeFile ((e.writeCall cipher).writeAtomic fs').1 e.temp, result) := by
  have hclean' : (e.writeCall cipher).CleanStaging fs' :=
    (cleanStaging_congr fun k => hframe _ (temp_ne_staging _ k)).mpr hclean
  obtain ⟨hfile, identity, hidentity, recipient, hmem, hown⟩ := prepare_ok hprepare
  have hpath : e.file ≠ e.temp := fun h => hfile (h ▸ hfree)
  rcases writeAtomic_clean hclean' with ⟨err, hwrite⟩ | hwrite
  · rw [hwrite] at hresult
    rw [hwrite, removeFile_restores hfree hframe hnode]
    exact ⟨fun h => (nomatch hresult.mp h), fun _ _ => .inl rfl, fun _ _ => rfl⟩
  · rw [hwrite] at hresult
    rw [hwrite]
    dsimp only
    rw [show (e.writeCall cipher).path = e.file from rfl,
      removeFile_update_other hfree hframe hnode hpath]
    refine ⟨fun _ => ?_, fun err herr => ?_, fun path hne => Function.update_of_ne hne ..⟩
    · obtain ⟨text, htext, hencrypt⟩ := encrypted_ok hcipher
      refine ⟨recipients, plain, identity, cipher, text, hprepare, hidentity, ?_, ?_, ?_, ?_⟩
      · rw [← hage.text_inj hown]
        exact hmem
      · rw [EditCall.edited, ← staged, heditor]
        exact htext
      · exact contents_file 39 (Function.update_self ..)
      · exact hage.decrypts text recipients cipher hencrypt
    · refine .inr ⟨fun hflush => ?_, cipher, Function.update_self ..⟩
      have hsync : (e.writeCall cipher).syncParent = .ok () := by
        rw [WriteCall.syncParent, show (e.writeCall cipher).openDir = e.openDir from rfl,
          show (e.writeCall cipher).syncDir = e.syncDir from rfl, hflush]
      rw [hresult.mpr hsync] at herr
      cases herr

theorem safe_of_clean (hage : Lawful e.age) (heditor : SavesInPlace e) (hclean : e.CleanEdit fs) :
    e.EditSafe fs (e.edit fs) := by
  cases hprepare : e.prepare fs with
  | error err =>
    have hedit : e.edit fs = (fs, .error err) := by rw [EditCall.edit, hprepare]
    rw [hedit]
    exact editSafe_of_failed err
  | ok prepared =>
    obtain ⟨recipients, plain⟩ := prepared
    obtain ⟨htemp, hstaging⟩ := hclean recipients plain hprepare
    rcases htemp with hfree | hdirectory
    · rcases edit_free hprepare hfree with ⟨err, hedit⟩ | hwrite
      · rw [hedit]
        exact editSafe_of_failed err
      · rw [edit_of_writePlain hprepare hwrite]
        rcases reencrypt_cases e (staged e fs plain) recipients with
          ⟨err, hreencrypt⟩ | ⟨fs', cipher, hedited, hcipher⟩
        · obtain ⟨hframe, hnode⟩ :=
            @frame_staged _ _ e fs heditor plain (e.editor (staged e fs plain)).1 _ rfl
          rw [hreencrypt, removeFile_restores hfree hframe hnode]
          exact editSafe_of_failed err
        · obtain ⟨hframe, hnode⟩ := frame_staged heditor hedited
          obtain ⟨hfinal, hok⟩ := reencrypt_of_encrypted hedited hcipher
          rw [hfinal]
          exact safe_of_write hage hprepare hfree hedited hframe hnode hcipher hok
            (hstaging _ _ _ hwrite hedited hcipher)
    · rw [edit_taken hprepare (by rw [hdirectory]; nofun), removeFile, if_pos hdirectory]
      exact editSafe_of_failed _

theorem clean_of_safe (heditor : SavesInPlace e) (hsafe : e.EditSafe fs (e.edit fs)) :
    e.CleanEdit fs := by
  intro recipients plain hprepare
  have hfile := (prepare_ok hprepare).1
  have htemp : fs e.temp = none ∨ fs e.temp = some .directory := by
    by_contra hnode
    obtain ⟨htaken, hother⟩ := not_or.mp hnode
    rw [edit_taken hprepare htaken, removeFile, if_neg hother] at hsafe
    by_cases hpath : e.temp = e.file
    · have hgone : Function.update fs e.temp none e.file = none := by
        rw [hpath, Function.update_self]
      rcases hsafe.failed _ rfl with hsame | ⟨-, cipher, hnew⟩
      · exact hfile (hsame.symm.trans hgone)
      · cases hgone.symm.trans hnew
    · have hsame := hsafe.others e.temp hpath
      dsimp only at hsame
      rw [Function.update_self] at hsame
      exact htaken hsame.symm
  refine ⟨htemp, fun fs₁ fs₂ cipher hwrite hedited hcipher => ?_⟩
  by_contra hdirty
  obtain ⟨hfree, rfl⟩ := writePlain_ok hwrite
  obtain ⟨hframe, -⟩ := frame_staged heditor hedited
  have hkeep : ∀ k, fs₂ ((e.writeCall cipher).temp k) = fs ((e.writeCall cipher).temp k) :=
    fun k => hframe _ (temp_ne_staging _ k)
  obtain ⟨k, hchanged⟩ := writeAtomic_changes fun h => hdirty ((cleanStaging_congr hkeep).mp h)
  have hsame := hsafe.others _ (temp_ne_path (e.writeCall cipher) k)
  rw [edit_of_writePlain hprepare hwrite, (reencrypt_of_encrypted hedited hcipher).1] at hsame
  rw [hkeep] at hchanged
  exact hchanged ((removeFile_of_ne (temp_ne_staging _ k)).symm.trans hsame)

end Laws

/-- An edit is safe exactly when nothing but a directory stands where the plaintext is staged and
the attempts to stage the ciphertext are clean. -/
theorem edit_safe_iff {Recipient Identity : Type} (e : EditCall Recipient Identity)
    (fs : FileSystem) (hage : Lawful e.age) (heditor : SavesInPlace e) :
    e.EditSafe fs (e.edit fs) ↔ e.CleanEdit fs :=
  ⟨clean_of_safe heditor, safe_of_clean hage heditor⟩

/-- Two operators; the header of a ciphertext says which of them can read it. -/
def twoKeys : Age Bool Bool where
  toPublic id := id
  text recipient := if recipient then "age1a" else "age1b"
  encrypt plain recipients :=
    .ok ((if true ∈ recipients then 1 else 0) :: (if false ∈ recipients then 1 else 0) :: plain)
  decrypt
    | first :: second :: plain, id =>
      if (if id then first else second) = 1 then .ok plain else .error "no matching identity"
    | _, _ => .error "no header"

theorem lawful_twoKeys : Lawful twoKeys where
  decrypts plain recipients cipher h id hid := by
    cases h
    cases id with
    | true => exact if_pos (if_pos hid)
    | false => exact if_pos (if_pos hid)
  text_inj := by
    have hinj : ∀ a b, twoKeys.text a = twoKeys.text b → a = b := by decide
    exact fun a b => hinj a b

/-- The first operator edits a file for both of them, and replaces the text. -/
def editBoth : EditCall Bool Bool where
  age := twoKeys
  recipients := .ok [true, false]
  identity := .ok true
  file := "/d/x.env.age"
  readFile := none
  tempDir := "/tmp"
  umask := 18
  pid := 7
  nonce := 9
  plain := ⟨none, none, none, none⟩
  editor fs := (Function.update fs "/tmp/shellflow-edit-7-9.env" (some (.file [65, 61, 50] 384)), none)
  readBack := none
  seed := 5
  staging _ := ⟨none, none, none, none, none⟩
  publish := none
  openDir := none
  syncDir := none

theorem temp_editBoth : editBoth.temp = "/tmp/shellflow-edit-7-9.env" := by decide +kernel

theorem savesInPlace_editBoth : SavesInPlace editBoth where
  frame fs path hpath := Function.update_of_ne (temp_editBoth ▸ hpath) ..
  file fs := by
    have hsaved : (editBoth.editor fs).1 "/tmp/shellflow-edit-7-9.env" =
        some (.file [65, 61, 50] 384) := by
      simp [editBoth]
    rw [temp_editBoth, hsaved]
    exact fun h => Node.noConfusion (Option.some.inj h)

def sealedFile : FileSystem := fun path =>
  if path = "/d/x.env.age" then some (.file [1, 1, 65, 61, 49] 384) else none

theorem edit_safe_iff_both :
    editBoth.EditSafe sealedFile (editBoth.edit sealedFile) ∧
      ((editBoth.edit sealedFile).1 "/d/x.env.age" = some (.file [1, 1, 65, 61, 50] 384)) := by
  refine ⟨(edit_safe_iff editBoth sealedFile lawful_twoKeys savesInPlace_editBoth).mpr ?_, ?_⟩
  · intro recipients plain _
    refine ⟨.inl (by rw [temp_editBoth]; rfl), fun _ _ cipher _ _ _ k _ _ => .inr nofun⟩
  · decide +kernel

/-- A file stands where the plaintext is to be staged. -/
def takenName : FileSystem := fun path =>
  if path = "/tmp/shellflow-edit-7-9.env" then some (.file [9] 420) else sealedFile path

theorem editBoth_removes_a_foreign_file :
    ¬ ∀ (e : EditCall Bool Bool) (fs : FileSystem), Lawful e.age → SavesInPlace e →
      e.EditSafe fs (e.edit fs) := by
  intro hall
  have hsafe := hall editBoth takenName lawful_twoKeys savesInPlace_editBoth
  have hgone : (editBoth.edit takenName).1 "/tmp/shellflow-edit-7-9.env" = none := by
    decide +kernel
  have hkept := hsafe.others "/tmp/shellflow-edit-7-9.env" (by decide)
  rw [hgone] at hkept
  cases hkept

end Shellflow.SecretEdit
