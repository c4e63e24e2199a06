import Shellflow.Secrets.Resolve

/-! The sealed files a run opens, in the order it opens them. Opening can fail; what the
resolution does with the opened files cannot, so it is a plain fold over them. -/
namespace Shellflow
variable {Identity : Type}

/-- One decrypted file; `host` names the alias when the path had the placeholder. -/
structure OpenedFile where
  host : Option String
  pairs : List EnvPair
deriving DecidableEq, Repr

/-- Identities loaded so far and files opened so far. -/
abbrev Opening (Identity : Type) := List (String × Identity) × List OpenedFile

def openFile (vault : Vault Identity) (file : String) (identity : Identity)
    (st : Opening Identity) (host : Option String) : Except Report (Opening Identity) := do
  let path := match host with
    | some host => Str.replace file "{host}" host
    | none => file
  let pairs ← readPairs vault path identity
  pure (st.1, st.2 ++ [⟨host, pairs⟩])

/-- The hosts an entry expands to; an entry without the placeholder is one shared file. -/
def entryHosts (hostAliases : List String) (entry : SecretEntry) : List (Option String) :=
  if Str.contains entry.file "{host}" then hostAliases.map some else [none]

def openEntry (vault : Vault Identity) (hostAliases : List String) (identity : Option String)
    (st : Opening Identity) (entry : SecretEntry) : Except Report (Opening Identity) := do
  let path ← identityPath vault identity entry
  let (cache, loaded) ← cachedIdentity vault st.1 path
  (entryHosts hostAliases entry).foldlM (openFile vault entry.file loaded) (cache, st.2)

def openAll (vault : Vault Identity) (entries : List SecretEntry) (hostAliases : List String)
    (identity : Option String) : Except Report (List OpenedFile) :=
  Prod.snd <$> entries.foldlM (openEntry vault hostAliases identity) ([], [])

/-- What the resolution does with one opened file. -/
def place (maskMinLen : Nat) (st : Resolving Identity) (f : OpenedFile) : Resolving Identity :=
  match f.host with
  | some host => { st with
      perHost := Assoc.modify [] (fun old => old ++ f.pairs) host st.perHost,
      registry := f.pairs.foldl (register maskMinLen) st.registry }
  | none => { st with
      sharedKeys := (Assoc.keys f.pairs).foldl Assoc.pushNew st.sharedKeys,
      shared := f.pairs.foldl Assoc.assign st.shared,
      registry := f.pairs.foldl (register maskMinLen) st.registry }

def placeAll (maskMinLen : Nat) (st : Opening Identity) : Resolving Identity :=
  { st.2.foldl (place maskMinLen) (Resolving.start : Resolving Identity) with cache := st.1 }

theorem readPairs_ok {vault : Vault Identity} {path : String} {identity : Identity}
    {pairs : List EnvPair} (h : readPairs vault path identity = .ok pairs) :
    (Assoc.keys pairs).Nodup ∧ ∀ p ∈ pairs, isValidVarName p.1 = true := by
  obtain ⟨cipher, -, h⟩ := Fallible.bind_eq_ok.mp h
  obtain ⟨plain, -, h⟩ := Fallible.bind_eq_ok.mp h
  cases hp : parseEnvFile plain with
  | error e =>
    rw [hp] at h
    cases h
  | ok found =>
    rw [hp] at h
    cases h
    exact ⟨parseEnvFile_nodup hp, parseEnvFile_keys hp⟩

/-- The keys of one file are distinct, so the last-wins rule inside it changes nothing. -/
theorem decryptFile_eq (vault : Vault Identity) (maskMinLen : Nat) (path : String)
    (identity : Identity) (reg : Registry) :
    decryptFile vault maskMinLen path identity reg =
      (fun pairs => (pairs, pairs.foldl (register maskMinLen) reg)) <$>
        readPairs vault path identity := by
  unfold decryptFile
  cases h : readPairs vault path identity with
  | error e => rfl
  | ok pairs =>
    have hself : pairs.foldl Assoc.assign [] = pairs := by
      have hdistinct := (readPairs_ok h).1
      simpa using Assoc.foldl_assign_of_nodup pairs [] hdistinct (by simp)
    exact congrArg (fun out => Except.ok (out, pairs.foldl (register maskMinLen) reg)) hself

theorem placeAll_concat (maskMinLen : Nat) (cache : List (String × Identity))
    (files : List OpenedFile) (f : OpenedFile) :
    placeAll maskMinLen (cache, files ++ [f]) =
      place maskMinLen (placeAll maskMinLen (cache, files)) f := by
  simp only [placeAll, List.foldl_append, List.foldl_cons, List.foldl_nil, place]
  cases f.host <;> rfl

theorem resolveHostFile_placeAll (vault : Vault Identity) (maskMinLen : Nat) (file : String)
    (identity : Identity) (st : Opening Identity) (host : String) :
    resolveHostFile vault maskMinLen file identity (placeAll maskMinLen st) host =
      placeAll maskMinLen <$> openFile vault file identity st (some host) := by
  simp only [resolveHostFile, openFile, decryptFile_eq]
  cases readPairs vault (Str.replace file "{host}" host) identity with
  | error e => rfl
  | ok pairs =>
    exact congrArg Except.ok (placeAll_concat maskMinLen st.1 st.2 ⟨some host, pairs⟩).symm

theorem resolveSharedFile_placeAll (vault : Vault Identity) (maskMinLen : Nat) (file : String)
    (identity : Identity) (st : Opening Identity) :
    resolveSharedFile vault maskMinLen file identity (placeAll maskMinLen st) =
      placeAll maskMinLen <$> openFile vault file identity st none := by
  simp only [resolveSharedFile, openFile, decryptFile_eq]
  cases readPairs vault file identity with
  | error e => rfl
  | ok pairs =>
    exact congrArg Except.ok (placeAll_concat maskMinLen st.1 st.2 ⟨none, pairs⟩).symm

theorem resolveEntry_placeAll (vault : Vault Identity) (hostAliases : List String)
    (identity : Option String) (maskMinLen : Nat) (st : Opening Identity) (entry : SecretEntry) :
    resolveEntry vault hostAliases identity maskMinLen (placeAll maskMinLen st) entry =
      placeAll maskMinLen <$> openEntry vault hostAliases identity st entry := by
  unfold resolveEntry openEntry
  cases identityPath vault identity entry with
  | error e => rfl
  | ok path =>
    cases hc : cachedIdentity vault st.1 path with
    | error e =>
      have hcache : (placeAll maskMinLen st).cache = st.1 := rfl
      simp [bind, Except.bind, hcache, hc, Functor.map, Except.map]
    | ok found =>
      have hcache : (placeAll maskMinLen st).cache = st.1 := rfl
      have hstart : { placeAll maskMinLen st with cache := found.1 } =
          placeAll maskMinLen (found.1, st.2) := rfl
      by_cases hhost : Str.contains entry.file "{host}" = true
      · have hloop := Fallible.foldlM_map (placeAll maskMinLen)
          (fun s host => resolveHostFile_placeAll vault maskMinLen entry.file found.2 s host)
          hostAliases (found.1, st.2)
        simp only [bind, Except.bind, hcache, hc, hstart, entryHosts, if_pos hhost,
          List.foldlM_map]
        exact hloop
      · have hone := resolveSharedFile_placeAll vault maskMinLen entry.file found.2 (found.1, st.2)
        have hsingle : [none].foldlM (openFile vault entry.file found.2) (found.1, st.2) =
            openFile vault entry.file found.2 (found.1, st.2) none := by
          simp only [List.foldlM_cons, List.foldlM_nil, bind_pure]
        simp only [bind, Except.bind, hcache, hc, hstart, entryHosts, if_neg hhost, hsingle]
        exact hone

/-- Resolving is opening the files and then placing what they hold. -/
theorem resolveSecrets_eq (vault : Vault Identity) (entries : List SecretEntry)
    (hostAliases : List String) (identity : Option String) (maskMinLen : Nat) :
    resolveSecrets vault entries hostAliases identity maskMinLen =
      (fun files => (files.foldl (place maskMinLen)
        (Resolving.start : Resolving Identity)).finish) <$>
          openAll vault entries hostAliases identity := by
  have hloop := Fallible.foldlM_map (placeAll maskMinLen)
    (fun st entry => resolveEntry_placeAll vault hostAliases identity maskMinLen st entry)
    entries ([], [])
  have hstart : placeAll maskMinLen (([], []) : Opening Identity) = Resolving.start := rfl
  rw [hstart] at hloop
  rw [resolveSecrets, hloop, openAll]
  cases entries.foldlM (openEntry vault hostAliases identity) ([], []) with
  | error e => rfl
  | ok st => rfl

/-- The keys of every opened file are distinct shell identifiers. -/
theorem openAll_ok {vault : Vault Identity} {entries : List SecretEntry}
    {hostAliases : List String} {identity : Option String} {files : List OpenedFile}
    (h : openAll vault entries hostAliases identity = .ok files) :
    ∀ f ∈ files, (Assoc.keys f.pairs).Nodup ∧ ∀ p ∈ f.pairs, isValidVarName p.1 = true := by
  let Good : Opening Identity → Prop := fun st =>
    ∀ f ∈ st.2, (Assoc.keys f.pairs).Nodup ∧ ∀ p ∈ f.pairs, isValidVarName p.1 = true
  have hfile : ∀ file loaded st host st', Good st →
      openFile vault file loaded st host = .ok st' → Good st' := by
    intro file loaded st host st' hst hstep
    obtain ⟨pairs, hpairs, hstep⟩ := Fallible.bind_eq_ok.mp hstep
    cases hstep
    intro f hf
    rcases List.mem_append.mp hf with hf | hf
    · exact hst f hf
    · rw [List.mem_singleton.mp hf]
      exact readPairs_ok hpairs
  have hentry : ∀ st entry st', Good st →
      openEntry vault hostAliases identity st entry = .ok st' → Good st' := by
    intro st entry st' hst hstep
    obtain ⟨path, -, hstep⟩ := Fallible.bind_eq_ok.mp hstep
    obtain ⟨⟨cache, loaded⟩, -, hstep⟩ := Fallible.bind_eq_ok.mp hstep
    have hstart : Good (cache, st.2) := hst
    exact Fallible.foldlM_invariant Good (hfile entry.file loaded) hstart hstep
  obtain ⟨st, hst, rfl⟩ := Fallible.map_eq_ok.mp h
  exact Fallible.foldlM_invariant Good hentry (fun f hf => absurd hf List.not_mem_nil) hst

end Shellflow
