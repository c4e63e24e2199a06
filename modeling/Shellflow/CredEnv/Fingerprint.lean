import Shellflow.Lib.Bytes
import Shellflow.Text

/-! The fingerprint of a credential store: which byte string is hashed, and when two inputs
share one. -/
namespace Shellflow
open Bytes

/-- What is sealed: the keys in order, the environment and the host key of the machine. A
variable that is unset or not UTF-8 has no value. -/
structure SealInput where
  keys : List String
  env : String → Option String
  hostKey : Option (List UInt8)
  valid : ∀ key ∈ keys, isValidVarName key = true

def fingerprintFile : String := ".seal-fingerprint"

def sortNames (names : List String) : List String :=
  names.mergeSort fun a b => Str.leChars a.toList b.toList

section Fingerprint

variable (sha256 : List UInt8 → List UInt8)

def credentialBytes (key value : String) : List UInt8 :=
  encode key.toList ++ encode ['='] ++ encode value.toList ++ encode ['\n']

def hostKeyMark : List Char := "host-key:".toList

def hostKeyBytes : Option (List UInt8) → List UInt8
  | some hostKey => encode hostKeyMark ++ sha256 hostKey
  | none => []

/-- The names the store is to hold. -/
def nameBytes (keys : List String) : List UInt8 :=
  (sortNames keys).flatMap fun name => encode name.toList ++ encode ['\n']

namespace SealInput

def value (x : SealInput) (key : String) : String := (x.env key).getD ""

/-- The ordered list of credentials. -/
def credentials (x : SealInput) : List (String × String) :=
  x.keys.map fun key => (key, x.value key)

/-- The bytes `sealFingerprint` hashes. -/
def hashed (x : SealInput) : List UInt8 :=
  (x.keys.flatMap fun key => credentialBytes key (x.value key)) ++
    hostKeyBytes sha256 x.hostKey ++ nameBytes x.keys

def sealFingerprint (x : SealInput) : String :=
  String.ofList (hexChars (sha256 (x.hashed sha256)))

end SealInput

/-- A store: the text of its fingerprint file, when that can be read, and the names of its
entries. -/
structure CredentialStore where
  recorded : Option String
  entries : List String

def CredentialStore.recordFingerprint (store : CredentialStore) (fingerprint : String) :
    CredentialStore :=
  { store with recorded := some fingerprint }

def storeIsCurrent (store : CredentialStore) (keys : List String) (fingerprint : String) : Bool :=
  if !(store.recorded.any fun current => Str.trim current == fingerprint) then false
  else sortNames (store.entries.filter fun name => name != fingerprintFile) == sortNames keys

namespace SealInput

/-- The same keys in the same order, the same values and the same host key. -/
def Same (x y : SealInput) : Prop := x.credentials = y.credentials ∧ x.hostKey = y.hostKey

/-- The digest separates the host keys and the hashed bytes of the two inputs. -/
def NoCollision (x y : SealInput) : Prop :=
  (∀ a b, x.hostKey = some a → y.hostKey = some b → sha256 a = sha256 b → a = b) ∧
    (sha256 (x.hashed sha256) = sha256 (y.hashed sha256) → x.hashed sha256 = y.hashed sha256)

/-- Without a collision of the digest, different inputs hash different bytes, and a store sealed
from one is not current for the other. -/
def Distinguished (x y : SealInput) : Prop :=
  x.NoCollision sha256 y →
    (¬ x.Same y → x.hashed sha256 ≠ y.hashed sha256) ∧
      ∀ store : CredentialStore,
        storeIsCurrent (store.recordFingerprint (x.sealFingerprint sha256)) y.keys
          (y.sealFingerprint sha256) = true → x.Same y

end SealInput
end Fingerprint

/-- The lines of a value after its first. -/
def laterLines (value : String) : List (List Char) :=
  (Str.splitCharFrom '\n' [] value.toList).tail

/-- A line that reads as a credential: a variable name and an equals sign. -/
def startsCredential (line : List Char) : Bool :=
  match Str.splitOnceChars ['='] line with
  | some (name, _) => isValidVarName (String.ofList name)
  | none => false

/-- The later lines of the values are allowed ones, and none starts like the host key. -/
def SealInput.FollowedBy (allowed : List Char → Prop) (x : SealInput) : Prop :=
  ∀ key ∈ x.keys, ∀ l ∈ laterLines (x.value key), allowed l ∧ ¬ hostKeyMark <+: l

section VarNames

theorem mem_of_isValidVarName {name : String} (h : isValidVarName name = true) {c : Char}
    (hc : c ∈ name.toList) : (isAsciiAlphanumeric c || c == '_') = true := by
  unfold isValidVarName at h
  cases hname : name.toList with
  | nil =>
    rw [hname] at hc
    cases hc
  | cons first rest =>
    rw [hname] at h hc
    simp only [Bool.and_eq_true, List.all_eq_true] at h
    cases List.mem_cons.mp hc with
    | inl hfirst =>
      subst hfirst
      have hfirst := h.1
      unfold isAsciiAlphanumeric
      cases halpha : isAsciiAlphabetic c with
      | true => rfl
      | false =>
        rw [halpha, Bool.false_or] at hfirst
        rw [hfirst, Bool.or_true]
    | inr hrest => exact h.2 c hrest

/-- A variable name has none of the separators. -/
theorem separator_not_mem {name : String} (h : isValidVarName name = true) :
    '=' ∉ name.toList ∧ '\n' ∉ name.toList ∧ '-' ∉ name.toList := by
  refine ⟨fun hc => ?_, fun hc => ?_, fun hc => ?_⟩ <;>
    · have hvar := mem_of_isValidVarName h hc
      revert hvar
      decide

theorem startsCredential_append {name : String} (h : isValidVarName name = true)
    (rest : List Char) : startsCredential (name.toList ++ '=' :: rest) = true := by
  have hsplit : Str.splitOnceChars ['='] (name.toList ++ '=' :: rest) = some (name.toList, rest) :=
    Str.splitOnceChars_of_notMem rest (separator_not_mem h).1
  rw [startsCredential, hsplit]
  simpa using h

theorem exists_of_startsCredential {line : List Char} (h : startsCredential line = true) :
    ∃ name rest, isValidVarName name = true ∧ line = name.toList ++ '=' :: rest := by
  unfold startsCredential at h
  split at h
  next name rest hsplit =>
    refine ⟨String.ofList name, rest, h, ?_⟩
    rw [Str.splitOnceChars_eq hsplit, String.toList_ofList, List.append_assoc,
      List.singleton_append]
  next => cases h

end VarNames

section Lines

/-- The first line of a text. -/
def firstLine (s : List Char) : List Char := s.takeWhile (· ≠ '\n')

theorem firstLine_concat (s : List Char) : firstLine (s ++ ['\n']) = firstLine s := by
  induction s with
  | nil => rfl
  | cons c s ih =>
    by_cases hc : c = '\n'
    · subst hc
      rfl
    · have hkeep : ∀ t, firstLine (c :: t) = c :: firstLine t := fun t =>
        List.takeWhile_cons_of_pos (by simpa using hc)
      rw [List.cons_append, hkeep, hkeep, ih]

theorem firstLine_mem (s : List Char) : firstLine s ∈ Str.splitCharFrom '\n' [] s := by
  have hsplit : s = firstLine s ++ s.dropWhile (· ≠ '\n') := List.takeWhile_append_dropWhile.symm
  have hline : '\n' ∉ firstLine s := fun h => by
    have hkept := List.mem_takeWhile_imp h
    simp at hkept
  cases hrest : s.dropWhile (· ≠ '\n') with
  | nil =>
    rw [hrest, List.append_nil] at hsplit
    have hone : Str.splitCharFrom '\n' [] s = [s] :=
      Str.splitCharFrom_of_notMem [] (by rwa [← hsplit] at hline)
    rw [hone, ← hsplit]
    exact List.mem_singleton_self s
  | cons c rest =>
    have hc : c = '\n' := by
      have hhead := List.head?_dropWhile_not (· ≠ '\n') s
      rw [hrest] at hhead
      simpa using hhead
    rw [hrest, hc] at hsplit
    have hmem : firstLine s ∈ Str.splitCharFrom '\n' [] (firstLine s ++ '\n' :: rest) := by
      rw [Str.splitCharFrom_append, Str.splitCharFrom_of_notMem [] hline]
      simp
    rwa [← hsplit] at hmem

/-- What follows a newline of a value is a later line of it. -/
theorem firstLine_mem_laterLines {value : String} {before after : List Char}
    (h : value.toList = before ++ '\n' :: after) : firstLine after ∈ laterLines value := by
  rw [laterLines, h, Str.splitCharFrom_append]
  cases hbefore : Str.splitCharFrom '\n' [] before with
  | nil => exact absurd hbefore (Str.splitCharFrom_ne_nil '\n' [] before)
  | cons line lines => exact List.mem_append_right lines (firstLine_mem after)

/-- A text without a newline that bytes start with is at the start of the line they start with. -/
theorem prefix_firstLine {mark w : List Char} {r s : List UInt8} (hmark : '\n' ∉ mark)
    (h : encode mark ++ r = encode (w ++ ['\n']) ++ s) : mark <+: firstLine w := by
  have htake : ∀ rest : List Char, firstLine (mark ++ rest) = mark ++ firstLine rest := fun rest =>
    List.takeWhile_append_of_pos fun c hc => by
      simpa using fun hnl : c = '\n' => hmark (hnl ▸ hc)
  cases encode_append_cases mark (w ++ ['\n']) h with
  | inl hc =>
    obtain ⟨c, hw, -⟩ := hc
    rw [← firstLine_concat w, hw, htake]
    exact List.prefix_append mark (firstLine c)
  | inr hc =>
    obtain ⟨c, hm, -⟩ := hc
    exact absurd (by rw [hm]; simp) hmark

end Lines

section Decoding

theorem nameBytes_length (keys : List String) :
    (nameBytes keys).length =
      (keys.flatMap fun name => encode name.toList ++ encode ['\n']).length :=
  ((List.mergeSort_perm keys _).flatMap_right _).length_eq

theorem nameBytes_length_le (keys more : List String) :
    (nameBytes keys).length ≤ (nameBytes (keys ++ more)).length := by
  rw [nameBytes_length, nameBytes_length, List.flatMap_append, List.length_append]
  omega

def credentialText (c : String × String) : List Char := c.1.toList ++ '=' :: c.2.toList ++ ['\n']

/-- The bytes of a list of credentials. -/
def bytesOf (creds : List (String × String)) : List UInt8 :=
  creds.flatMap fun c => encode (credentialText c)

/-- What follows the credentials. -/
def afterCredentials (sha256 : List UInt8 → List UInt8) (hostKey : Option (List UInt8))
    (keys : List String) : List UInt8 :=
  hostKeyBytes sha256 hostKey ++ nameBytes keys

theorem SealInput.hashed_eq (sha256 : List UInt8 → List UInt8) (x : SealInput) :
    x.hashed sha256 = bytesOf x.credentials ++
      afterCredentials sha256 x.hostKey (x.credentials.map Prod.fst) := by
  have hkeys : x.credentials.map Prod.fst = x.keys := by
    rw [SealInput.credentials, List.map_map]
    exact List.map_id x.keys
  have hbytes : (x.keys.flatMap fun key => credentialBytes key (x.value key)) =
      bytesOf x.credentials := by
    rw [bytesOf, SealInput.credentials, List.flatMap_map]
    congr 1
    funext key
    simp only [credentialBytes, credentialText, ← encode_append, List.append_assoc,
      List.cons_append, List.nil_append]
  rw [SealInput.hashed, hbytes, hkeys, afterCredentials, List.append_assoc]

/-- A credential with a variable name whose value has no line that could begin another part. -/
def Plain (c : String × String) : Prop :=
  isValidVarName c.1 = true ∧
    ∀ l ∈ laterLines c.2, startsCredential l = false ∧ ¬ hostKeyMark <+: l

/-- The first of two texts of credentials is no proper beginning of the second. -/
theorem credentialText_extend {c d : String × String} {e : List Char} (hc : Plain c)
    (hd : Plain d) (h : credentialText d = credentialText c ++ e) :
    c.1 = d.1 ∧ d.2.toList ++ ['\n'] = c.2.toList ++ '\n' :: e := by
  have hfind : ∀ a b : List Char, '=' ∉ a →
      Str.splitOnceChars ['='] (a ++ '=' :: b) = some (a, b) :=
    fun a b ha => Str.splitOnceChars_of_notMem b ha
  simp only [credentialText, List.append_assoc, List.cons_append, List.nil_append] at h
  have hsplit := congrArg (Str.splitOnceChars ['=']) h
  rw [hfind _ _ (separator_not_mem hd.1).1, hfind _ _ (separator_not_mem hc.1).1] at hsplit
  simp only [Option.some.injEq, Prod.mk.injEq] at hsplit
  exact ⟨(String.toList_inj.mp hsplit.1).symm, hsplit.2⟩

theorem credentialText_name (c : String × String) :
    credentialText c = (c.1.toList ++ ['=']) ++ (c.2.toList ++ ['\n']) := by
  simp [credentialText]

theorem credentialText_inj {c d : String × String} (hc : Plain c) (hd : Plain d)
    (h : credentialText c = credentialText d) : c = d := by
  have hextend : credentialText d = credentialText c ++ [] := by rw [List.append_nil, h]
  obtain ⟨hkey, hvalue⟩ := credentialText_extend hc hd hextend
  have hsame := String.toList_inj.mp (List.append_inj_left' hvalue rfl)
  exact Prod.ext hkey hsame.symm

variable {sha256 : List UInt8 → List UInt8}

theorem afterCredentials_inj {p : List String} {hx hy : Option (List UInt8)}
    (h : afterCredentials sha256 hx p = afterCredentials sha256 hy p) :
    hx.map sha256 = hy.map sha256 := by
  have hbytes : hostKeyBytes sha256 hx = hostKeyBytes sha256 hy := List.append_cancel_right h
  have hmark : 0 < (encode hostKeyMark).length := length_encode_pos (by decide)
  cases hx with
  | none =>
    cases hy with
    | none => rfl
    | some hostKey =>
      have hlen := congrArg List.length hbytes
      simp only [hostKeyBytes, List.length_nil, List.length_append] at hlen
      omega
  | some hostKey =>
    cases hy with
    | none =>
      have hlen := congrArg List.length hbytes
      simp only [hostKeyBytes, List.length_nil, List.length_append] at hlen
      omega
    | some other =>
      exact congrArg some (List.append_cancel_left hbytes)

/-- What follows the credentials is no credential. -/
theorem after_ne_credential {d : String × String} {p : List String}
    {ds : List (String × String)} {hx hy : Option (List UInt8)} (hd : Plain d)
    (h : afterCredentials sha256 hx p =
      bytesOf (d :: ds) ++ afterCredentials sha256 hy (p ++ (d :: ds).map Prod.fst)) : False := by
  cases hx with
  | none =>
    have hlen := congrArg List.length h
    have hmono := nameBytes_length_le p ((d :: ds).map Prod.fst)
    have hpos := length_encode_pos (s := credentialText d) (by simp [credentialText])
    simp only [bytesOf, afterCredentials, hostKeyBytes, List.nil_append, List.flatMap_cons,
      List.length_append] at hlen
    omega
  | some hostKey =>
    have hmem : '-' ∈ hostKeyMark ∧ '=' ∉ hostKeyMark := by decide
    rw [bytesOf, List.flatMap_cons, credentialText_name, encode_append (d.1.toList ++ ['=']),
      afterCredentials, hostKeyBytes, List.append_assoc, List.append_assoc, List.append_assoc] at h
    cases encode_append_cases hostKeyMark (d.1.toList ++ ['=']) h with
    | inl hc =>
      obtain ⟨c, hname, -⟩ := hc
      have hdash : '-' ∈ d.1.toList ++ ['='] := hname ▸ List.mem_append_left c hmem.1
      cases List.mem_append.mp hdash with
      | inl hdash => exact (separator_not_mem hd.1).2.2 hdash
      | inr hdash => exact absurd hdash (by decide)
    | inr hc =>
      obtain ⟨c, hname, -⟩ := hc
      exact hmem.2 (by rw [hname]; simp)

/-- A line of a value cannot read as the part of the other input that starts there: the host key
and the next credential are excluded, and the names are too short. -/
theorem no_extension {c d : String × String} {e : List Char} {p : List String}
    {cs ds : List (String × String)} {hx hy : Option (List UInt8)} (hc : Plain c) (hd : Plain d)
    (hcs : ∀ c ∈ cs, Plain c) (htext : credentialText d = credentialText c ++ e)
    (h : bytesOf cs ++ afterCredentials sha256 hx (p ++ c.1 :: cs.map Prod.fst) =
      encode e ++ (bytesOf ds ++ afterCredentials sha256 hy (p ++ d.1 :: ds.map Prod.fst))) :
    e = [] := by
  obtain ⟨hkey, hvalue⟩ := credentialText_extend hc hd htext
  by_contra hne
  obtain ⟨w, last, hw⟩ := List.eq_nil_or_concat e |>.resolve_left hne
  rw [List.concat_eq_append] at hw
  subst hw
  rw [← List.cons_append, ← List.append_assoc] at hvalue
  obtain ⟨hbody, hlast⟩ := List.append_inj' hvalue rfl
  obtain rfl : '\n' = last := List.cons.inj hlast |>.1
  have hline := hd.2 (firstLine w) (firstLine_mem_laterLines hbody)
  cases cs with
  | nil =>
    cases hx with
    | none =>
      have hlen := congrArg List.length h
      have hmono := nameBytes_length_le (p ++ [c.1]) (ds.map Prod.fst)
      have hpos := length_encode_pos (s := w ++ ['\n']) (by simp)
      rw [List.append_assoc, List.singleton_append, hkey] at hmono
      simp only [bytesOf, afterCredentials, hostKeyBytes, List.flatMap_nil, List.nil_append,
        List.map_nil, List.length_append, hkey] at hlen
      omega
    | some hostKey =>
      rw [bytesOf, List.flatMap_nil, List.nil_append, afterCredentials, hostKeyBytes,
        List.append_assoc] at h
      exact hline.2 (prefix_firstLine (by decide) h)
  | cons next cs =>
    have hnext := hcs next List.mem_cons_self
    have hmark : '\n' ∉ next.1.toList ++ ['='] := by
      simp only [List.mem_append, List.mem_singleton, not_or]
      exact ⟨(separator_not_mem hnext.1).2.1, by decide⟩
    rw [bytesOf, List.flatMap_cons, credentialText_name, encode_append (next.1.toList ++ ['=']),
      List.append_assoc, List.append_assoc] at h
    obtain ⟨rest, hrest⟩ := prefix_firstLine hmark h
    have hstarts := startsCredential_append hnext.1 rest
    rw [List.append_assoc, List.singleton_append] at hrest
    rw [hrest, hline.1] at hstarts
    cases hstarts

/-- The bytes tell the credentials and the digest of the host key. -/
theorem bytes_inj {p : List String} {cs ds : List (String × String)}
    {hx hy : Option (List UInt8)} (hcs : ∀ c ∈ cs, Plain c) (hds : ∀ d ∈ ds, Plain d)
    (h : bytesOf cs ++ afterCredentials sha256 hx (p ++ cs.map Prod.fst) =
      bytesOf ds ++ afterCredentials sha256 hy (p ++ ds.map Prod.fst)) :
    cs = ds ∧ hx.map sha256 = hy.map sha256 := by
  induction cs generalizing p ds with
  | nil =>
    cases ds with
    | nil => exact ⟨rfl, afterCredentials_inj (List.append_cancel_left h)⟩
    | cons d ds =>
      rw [List.map_nil, List.append_nil] at h
      exact (after_ne_credential (hds d List.mem_cons_self) h).elim
  | cons c cs ih =>
    cases ds with
    | nil =>
      rw [List.map_nil, List.append_nil] at h
      exact (after_ne_credential (hcs c List.mem_cons_self) h.symm).elim
    | cons d ds =>
      have hc := hcs c List.mem_cons_self
      have hd := hds d List.mem_cons_self
      have hcs' : ∀ c ∈ cs, Plain c := fun c hc => hcs c (List.mem_cons_of_mem _ hc)
      have hds' : ∀ d ∈ ds, Plain d := fun d hd => hds d (List.mem_cons_of_mem _ hd)
      simp only [bytesOf, List.flatMap_cons, List.append_assoc] at h
      have hsame : credentialText c = credentialText d ∧
          bytesOf cs ++ afterCredentials sha256 hx (p ++ c.1 :: cs.map Prod.fst) =
            bytesOf ds ++ afterCredentials sha256 hy (p ++ d.1 :: ds.map Prod.fst) := by
        cases encode_append_cases _ _ h with
        | inl he =>
          obtain ⟨e, htext, hrest⟩ := he
          have hnil := no_extension hc hd hcs' htext hrest
          subst hnil
          exact ⟨by rw [htext, List.append_nil], hrest⟩
        | inr he =>
          obtain ⟨e, htext, hrest⟩ := he
          have hnil := no_extension hd hc hds' htext hrest
          subst hnil
          exact ⟨by rw [htext, List.append_nil], hrest.symm⟩
      obtain ⟨htext, hrest⟩ := hsame
      have hhead : c = d := credentialText_inj hc hd htext
      subst hhead
      have happend : ∀ keys : List String, p ++ c.1 :: keys = p ++ [c.1] ++ keys := fun keys => by
        rw [List.append_assoc, List.singleton_append]
      rw [happend (cs.map Prod.fst), happend (ds.map Prod.fst)] at hrest
      obtain ⟨htail, hhost⟩ := ih hcs' hds' hrest
      exact ⟨by rw [htail], hhost⟩

end Decoding

namespace SealInput

variable {sha256 : List UInt8 → List UInt8}

theorem plain_of_followedBy {allowed : List Char → Prop} {x : SealInput}
    (hx : x.FollowedBy allowed)
    (hall : ∀ l, '\n' ∉ l → allowed l → startsCredential l = false) :
    ∀ c ∈ x.credentials, Plain c := by
  intro c hc
  obtain ⟨key, hkey, rfl⟩ := List.mem_map.mp hc
  refine ⟨x.valid key hkey, fun l hl => ?_⟩
  have hline := hx key hkey l hl
  exact ⟨hall l (Str.notMem_of_mem_splitCharFrom (List.mem_of_mem_tail hl)) hline.1, hline.2⟩

/-- Inputs whose bytes agree are the same, as long as no line reads as a credential. -/
theorem same_of_hashed {allowed : List Char → Prop} {x y : SealInput}
    (hx : x.FollowedBy allowed) (hy : y.FollowedBy allowed)
    (hall : ∀ l, '\n' ∉ l → allowed l → startsCredential l = false)
    (hsha : x.NoCollision sha256 y) (h : x.hashed sha256 = y.hashed sha256) : x.Same y := by
  rw [hashed_eq, hashed_eq] at h
  obtain ⟨hcreds, hdigest⟩ := bytes_inj (p := []) (plain_of_followedBy hx hall)
    (plain_of_followedBy hy hall) h
  refine ⟨hcreds, ?_⟩
  cases hxkey : x.hostKey with
  | none =>
    cases hykey : y.hostKey with
    | none => rfl
    | some b =>
      rw [hxkey, hykey] at hdigest
      cases hdigest
  | some a =>
    cases hykey : y.hostKey with
    | none =>
      rw [hxkey, hykey] at hdigest
      cases hdigest
    | some b =>
      rw [hxkey, hykey] at hdigest
      exact congrArg some (hsha.1 a b hxkey hykey (Option.some.inj hdigest))

theorem trim_sealFingerprint (x : SealInput) :
    Str.trim (x.sealFingerprint sha256) = x.sealFingerprint sha256 := by
  have hspace : ∀ n : Fin 16, Str.isWhitespace (hexDigit n) = false := by decide
  have hchars : Str.trimChars (hexChars (sha256 (x.hashed sha256))) =
      hexChars (sha256 (x.hashed sha256)) :=
    Str.trimChars_eq_self fun c hc => by
      obtain ⟨n, hn, rfl⟩ := of_mem_hexChars hc
      exact hspace ⟨n, hn⟩
  rw [Str.trim, sealFingerprint, String.toList_ofList, hchars]

/-- A store that is current was sealed from the same bytes. -/
theorem hashed_of_storeIsCurrent {x y : SealInput} (hsha : x.NoCollision sha256 y)
    {store : CredentialStore}
    (h : storeIsCurrent (store.recordFingerprint (x.sealFingerprint sha256)) y.keys
      (y.sealFingerprint sha256) = true) : x.hashed sha256 = y.hashed sha256 := by
  unfold storeIsCurrent CredentialStore.recordFingerprint at h
  split at h
  · cases h
  next hrecorded =>
    have hsame : x.sealFingerprint sha256 = y.sealFingerprint sha256 := by
      simpa [trim_sealFingerprint] using hrecorded
    exact hsha.2 (hexChars_inj (String.ofList_inj.mp hsame))

theorem distinguished_of_plain {allowed : List Char → Prop} {x y : SealInput}
    (hx : x.FollowedBy allowed) (hy : y.FollowedBy allowed)
    (hall : ∀ l, '\n' ∉ l → allowed l → startsCredential l = false) :
    x.Distinguished sha256 y := fun hsha =>
  ⟨fun hne h => hne (same_of_hashed hx hy hall hsha h), fun _ h =>
    same_of_hashed hx hy hall hsha (hashed_of_storeIsCurrent hsha h)⟩

end SealInput

section Collision

/-- Two keys and their values, on a machine without a host key. -/
def pairInput (a b : String) (u v : String)
    (h : isValidVarName a = true ∧ isValidVarName b = true) : SealInput where
  keys := [a, b]
  env := fun key => if key = a then some u else some v
  hostKey := none
  valid := by
    simpa using h

theorem pairInput_credentials {a b : String} (u v : String)
    (h : isValidVarName a = true ∧ isValidVarName b = true) (hne : b ≠ a) :
    (pairInput a b u v h).credentials = [(a, u), (b, v)] := by
  simp [pairInput, SealInput.credentials, SealInput.value, hne]

theorem pairInput_followedBy {allowed : List Char → Prop} {a b u v : String}
    {h : isValidVarName a = true ∧ isValidVarName b = true} (hne : b ≠ a)
    (hu : ∀ l ∈ laterLines u, allowed l ∧ ¬ hostKeyMark <+: l)
    (hv : ∀ l ∈ laterLines v, allowed l ∧ ¬ hostKeyMark <+: l) :
    (pairInput a b u v h).FollowedBy allowed := by
  have hfst : (pairInput a b u v h).value a = u := by simp [pairInput, SealInput.value]
  have hsnd : (pairInput a b u v h).value b = v := by simp [pairInput, SealInput.value, hne]
  intro key hkey
  cases List.mem_cons.mp hkey with
  | inl hkey =>
    rw [hkey, hfst]
    exact hu
  | inr hkey =>
    rw [List.mem_singleton.mp hkey, hsnd]
    exact hv

/-- Two pairs with the same text hash the same bytes. -/
theorem pairInput_hashed {sha256 : List UInt8 → List UInt8} {a b u v u' v' : String}
    {h : isValidVarName a = true ∧ isValidVarName b = true} (hne : b ≠ a)
    (htext : credentialText (a, u) ++ credentialText (b, v) =
      credentialText (a, u') ++ credentialText (b, v')) :
    (pairInput a b u v h).hashed sha256 = (pairInput a b u' v' h).hashed sha256 := by
  have hbytes : bytesOf [(a, u), (b, v)] = bytesOf [(a, u'), (b, v')] := by
    simp only [bytesOf, List.flatMap_cons, List.flatMap_nil, List.append_nil, ← encode_append,
      htext]
  rw [SealInput.hashed_eq, SealInput.hashed_eq, pairInput_credentials u v h hne,
    pairInput_credentials u' v' h hne, hbytes]
  rfl

theorem not_distinguished_of_hashed {sha256 : List UInt8 → List UInt8} {x y : SealInput}
    (hx : x.hostKey = none) (hne : ¬ x.Same y) (h : x.hashed sha256 = y.hashed sha256) :
    ¬ x.Distinguished sha256 y := by
  intro hdist
  have hsha : x.NoCollision sha256 y := by
    refine ⟨fun a b ha => ?_, fun _ => h⟩
    rw [hx] at ha
    cases ha
  exact (hdist hsha).1 hne h

theorem laterLines_of_notMem {value : String} (h : '\n' ∉ value.toList) :
    laterLines value = [] := by
  rw [laterLines, Str.splitCharFrom_of_notMem [] h, List.tail_cons]

theorem laterLines_append {value : String} {before line : List Char} (hbefore : '\n' ∉ before)
    (hline : '\n' ∉ line) (h : value.toList = before ++ '\n' :: line) :
    laterLines value = [line] := by
  rw [laterLines, h, Str.splitCharFrom_append, Str.splitCharFrom_of_notMem [] hbefore,
    Str.splitCharFrom_of_notMem [] hline]
  rfl

/-- No credential looks like the host key. -/
theorem not_hostKeyMark {line : List Char} (h : startsCredential line = true) :
    ¬ hostKeyMark <+: line := by
  intro hmark
  obtain ⟨name, rest, hname, rfl⟩ := exists_of_startsCredential h
  have hcut : hostKeyMark <+: name.toList ∨ name.toList ++ ['='] <+: hostKeyMark := by
    rw [List.append_cons] at hmark
    cases List.prefix_or_prefix_of_prefix hmark (List.prefix_append _ rest) with
    | inl hshort =>
      cases List.prefix_concat_iff.mp hshort with
      | inl heq =>
        have hend := congrArg List.getLast? heq
        rw [List.getLast?_concat] at hend
        exact absurd hend (by decide)
      | inr hpre => exact .inl hpre
    | inr hlong => exact .inr hlong
  cases hcut with
  | inl hpre =>
    exact (separator_not_mem hname).2.2 (hpre.subset (by decide))
  | inr hpre =>
    have heq : '=' ∈ hostKeyMark := hpre.subset (by simp)
    revert heq
    decide

theorem varName_concat {name : String} (h : isValidVarName name = true) :
    isValidVarName (name ++ "_") = true := by
  unfold isValidVarName at h ⊢
  rw [String.toList_append]
  cases hchars : name.toList with
  | nil =>
    rw [hchars] at h
    cases h
  | cons first others =>
    rw [hchars] at h
    simp only [Bool.and_eq_true] at h
    simp [h.1, h.2]

/-- An allowed line that reads as a credential moves from the end of one value into the middle of
the next. -/
theorem exists_shared {sha256 : List UInt8 → List UInt8} {allowed : List Char → Prop}
    {l : List Char} (hl : '\n' ∉ l) (hallowed : allowed l) (hcred : startsCredential l = true) :
    ∃ x y : SealInput, x.FollowedBy allowed ∧ y.FollowedBy allowed ∧
      ¬ x.Distinguished sha256 y := by
  obtain ⟨name, rest, hname, hline⟩ := exists_of_startsCredential hcred
  have hother := varName_concat hname
  have hne : name ≠ name ++ "_" := by
    intro heq
    have hlen := congrArg String.length heq
    simp at hlen
  have hrest : '\n' ∉ rest := fun hmem => hl (by rw [hline]; simp [hmem])
  have hlater : ∀ m ∈ [l], allowed m ∧ ¬ hostKeyMark <+: m := by
    intro m hm
    rw [List.mem_singleton.mp hm]
    exact ⟨hallowed, not_hostKeyMark hcred⟩
  have hnone : ∀ value : String, '\n' ∉ value.toList → ∀ m ∈ laterLines value,
      allowed m ∧ ¬ hostKeyMark <+: m := by
    intro value hvalue m hm
    rw [laterLines_of_notMem hvalue] at hm
    cases hm
  let u := String.ofList ('\n' :: l)
  let v' := String.ofList (rest ++ '\n' :: l)
  have hu : laterLines u = [l] :=
    laterLines_append (List.not_mem_nil : '\n' ∉ []) hl String.toList_ofList
  have hv' : laterLines v' = [l] := laterLines_append hrest hl String.toList_ofList
  have hx : (pairInput (name ++ "_") name u (String.ofList rest) ⟨hother, hname⟩).FollowedBy
      allowed :=
    pairInput_followedBy hne (hu ▸ hlater) (hnone _ (by simpa using hrest))
  have hy : (pairInput (name ++ "_") name "" v' ⟨hother, hname⟩).FollowedBy allowed :=
    pairInput_followedBy hne (hnone _ (by simp)) (hv' ▸ hlater)
  refine ⟨_, _, hx, hy, not_distinguished_of_hashed rfl ?_ ?_⟩
  · intro hsame
    have hcreds := hsame.1
    rw [pairInput_credentials _ _ _ hne, pairInput_credentials _ _ _ hne] at hcreds
    simp [u] at hcreds
  · refine pairInput_hashed hne ?_
    simp [credentialText, u, v', hline]

end Collision

section Theorems

variable (sha256 : List UInt8 → List UInt8)

/-- The fingerprint tells apart the inputs whose values go on with allowed lines only, exactly when
no allowed line reads as a credential. -/
theorem sealFingerprint_distinguishes_iff (allowed : List Char → Prop) :
    (∀ x y : SealInput, x.FollowedBy allowed → y.FollowedBy allowed → x.Distinguished sha256 y) ↔
      ∀ l, '\n' ∉ l → allowed l → startsCredential l = false := by
  constructor
  · intro hall l hl hallowed
    by_contra hcred
    obtain ⟨x, y, hx, hy, hshared⟩ := exists_shared hl hallowed (by simpa using hcred)
    exact hshared (hall x y hx hy)
  · exact fun hall x y hx hy => SealInput.distinguished_of_plain hx hy hall

/-- A value that goes on with a line for the second key, and one that does not. -/
def splitValues : SealInput := pairInput "A" "B" "x\nB=y" "z" (by decide)

def joinedValues : SealInput := pairInput "A" "B" "x" "y\nB=z" (by decide)

theorem sealFingerprint_shared : ∃ x y : SealInput, ¬ x.Same y ∧
    ∀ sha256, ¬ x.Distinguished sha256 y := by
  have hne : ¬ splitValues.Same joinedValues := by
    intro hsame
    have hcreds := hsame.1
    revert hcreds
    decide
  refine ⟨splitValues, joinedValues, hne, fun sha256 => ?_⟩
  exact not_distinguished_of_hashed rfl hne (pairInput_hashed (by decide) (by decide))

end Theorems

end Shellflow
