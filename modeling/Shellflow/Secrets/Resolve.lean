import Shellflow.Dsl.Plan
import Shellflow.Secrets.EnvFile

/-! Resolution of `@secrets` entries: which pairs reach which host, and which values are
registered for redaction. Files, identities and the decryption itself stay parameters. -/
namespace Shellflow

abbrev EnvPair := String × String

/-- A chain of error contexts, the outermost first. -/
abbrev Report := List String

def secretKeysVar : String := "LT_SECRET_KEYS"

/-- What the run reads from outside: home directory, identity files, sealed files. -/
structure Vault (Identity : Type) where
  expandHome : String → Except String String
  effectiveIdentityPath : Option String → Except String String
  loadX25519Identity : String → Except String Identity
  read : String → Except String (List UInt8)
  decryptString : List UInt8 → Identity → Except String String

/-- The long values to mask anywhere and the short pairs with their narrow rules. -/
structure Registry where
  masks : List String
  shorts : List EnvPair
deriving DecidableEq, Repr

structure ResolvedSecrets where
  shared : List EnvPair
  perHost : List (String × List EnvPair)
  masks : List String
  shorts : List EnvPair
deriving DecidableEq, Repr

/-- The accumulators of the resolution loop. -/
structure Resolving (Identity : Type) where
  cache : List (String × Identity)
  shared : List EnvPair
  sharedKeys : List String
  perHost : List (String × List EnvPair)
  registry : Registry

variable {Identity : Type}

def wrapErr {α : Type} (context : String) : Except String α → Except Report α
  | .ok a => .ok a
  | .error e => .error [context, e]

/-- A value seen before fails the first test even when it is long. -/
def register (maskMinLen : Nat) (reg : Registry) (pair : EnvPair) : Registry :=
  if maskMinLen ≤ pair.2.utf8ByteSize ∧ pair.2 ∉ reg.masks then
    { reg with masks := reg.masks ++ [pair.2] }
  else if pair.2 ≠ "" then { reg with shorts := Assoc.assign reg.shorts pair }
  else reg

/-- The plaintext pairs of one sealed file. -/
def readPairs (vault : Vault Identity) (path : String) (identity : Identity) :
    Except Report (List EnvPair) := do
  let cipher ← wrapErr s!"failed to read secrets file `{path}`" (vault.read path)
  let plain ← wrapErr s!"failed to decrypt `{path}`" (vault.decryptString cipher identity)
  wrapErr s!"malformed env file `{path}`"
    ((parseEnvFile plain).mapError SecretsError.display)

def decryptFile (vault : Vault Identity) (maskMinLen : Nat) (path : String)
    (identity : Identity) (reg : Registry) : Except Report (List EnvPair × Registry) := do
  let pairs ← readPairs vault path identity
  pure (pairs.foldl Assoc.assign [], pairs.foldl (register maskMinLen) reg)

def identityPath (vault : Vault Identity) (identity : Option String) (entry : SecretEntry) :
    Except Report String :=
  match entry.identity with
  | some explicit => (vault.expandHome explicit).mapError fun e => [e]
  | none => (vault.effectiveIdentityPath identity).mapError fun e => [e]

/-- The identity of an entry and the cache that holds it afterwards. -/
def cachedIdentity (vault : Vault Identity) (cache : List (String × Identity)) (path : String) :
    Except Report (List (String × Identity) × Identity) :=
  match cache.lookup path with
  | some loaded => .ok (cache, loaded)
  | none =>
    match vault.loadX25519Identity path with
    | .error e => .error [s!"{e} (identity: {path})"]
    | .ok loaded => .ok (cache ++ [(path, loaded)], loaded)

/-- The file of one host: its pairs are appended to what the host has already. -/
def resolveHostFile (vault : Vault Identity) (maskMinLen : Nat) (file : String)
    (identity : Identity) (st : Resolving Identity) (host : String) :
    Except Report (Resolving Identity) := do
  let (pairs, registry) ←
    decryptFile vault maskMinLen (Str.replace file "{host}" host) identity st.registry
  pure { st with
    perHost := Assoc.modify [] (fun old => old ++ pairs) host st.perHost, registry := registry }

def resolveSharedFile (vault : Vault Identity) (maskMinLen : Nat) (file : String)
    (identity : Identity) (st : Resolving Identity) : Except Report (Resolving Identity) := do
  let (pairs, registry) ← decryptFile vault maskMinLen file identity st.registry
  pure { st with
    sharedKeys := (Assoc.keys pairs).foldl Assoc.pushNew st.sharedKeys,
    shared := pairs.foldl Assoc.assign st.shared, registry := registry }

def resolveEntry (vault : Vault Identity) (hostAliases : List String) (identity : Option String)
    (maskMinLen : Nat) (st : Resolving Identity) (entry : SecretEntry) :
    Except Report (Resolving Identity) := do
  let path ← identityPath vault identity entry
  let (cache, loaded) ← cachedIdentity vault st.cache path
  if Str.contains entry.file "{host}" then
    hostAliases.foldlM (resolveHostFile vault maskMinLen entry.file loaded)
      { st with cache := cache }
  else resolveSharedFile vault maskMinLen entry.file loaded { st with cache := cache }

def Resolving.start : Resolving Identity := ⟨[], [], [], [], [], []⟩

/-- The key list is exported only when there are shared keys. -/
def Resolving.finish (st : Resolving Identity) : ResolvedSecrets where
  shared :=
    if st.sharedKeys = [] then st.shared
    else st.shared ++ [(secretKeysVar, Str.join " " st.sharedKeys)]
  perHost := st.perHost
  masks := st.registry.masks
  shorts := st.registry.shorts

def resolveSecrets (vault : Vault Identity) (entries : List SecretEntry)
    (hostAliases : List String) (identity : Option String) (maskMinLen : Nat) :
    Except Report ResolvedSecrets :=
  Resolving.finish <$>
    entries.foldlM (resolveEntry vault hostAliases identity maskMinLen) Resolving.start

end Shellflow
