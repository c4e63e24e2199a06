import Shellflow.Secrets.Overlay

/-! The environment of a step on one host: a remote block builds it from the run state and the
step's entries, a target-side command from the host's own secrets only. -/
namespace Shellflow
variable {Identity : Type}

/-- `vars` are the captured and shared variables; the order of the map plays no role here. -/
def buildEnvEntry (vars : List EnvPair) (processEnv : String → Option String)
    (env : List EnvPair) : EnvEntry → List EnvPair
  | .literal key value => Assoc.assign env (key, value)
  | .passthrough key =>
    if (vars.lookup key).isSome then env
    else
      match processEnv key with
      | some value => Assoc.assign env (key, value)
      | none => env

def buildEnv (vars : List EnvPair) (processEnv : String → Option String)
    (entries : List EnvEntry) : List EnvPair :=
  entries.foldl (buildEnvEntry vars processEnv) vars

def withLoginPath (env : List EnvPair) (path : Option String) : List EnvPair :=
  if (env.lookup "PATH").isSome then env
  else
    match path with
    | some path => env ++ [("PATH", path)]
    | none => env

/-- The run state before the first step: the shared pairs, inserted in order. -/
def startVars (r : ResolvedSecrets) : List EnvPair := r.shared.foldl Assoc.overwrite []

/-- The environment `run_remote_host` delivers with a remote block. -/
def remoteEnv (r : ResolvedSecrets) (vars : List EnvPair) (processEnv : String → Option String)
    (entries : List EnvEntry) (loginPath : Option String) (host : String) : List EnvPair :=
  r.overlay (withLoginPath (buildEnv vars processEnv entries) loginPath) host

inductive Transport
  | ssh
  | muxy
deriving DecidableEq, Repr

/-- The environment `run_target_command` delivers: it starts from nothing. -/
def targetEnv (r : ResolvedSecrets) (loginPath : Option String) (host : String) :
    Transport → List EnvPair
  | .ssh => r.overlay [] host
  | .muxy => withLoginPath (r.overlay [] host) loginPath

/-- The login path is added on the native transport only. -/
def addedPath (loginPath : Option String) : Transport → Option String
  | .ssh => none
  | .muxy => loginPath

/-- The environment of one host holds every secret meant for it and lists exactly their keys. -/
structure CarriesSecrets (r : ResolvedSecrets) (host : String) (env : List EnvPair) : Prop where
  shared : ∀ p ∈ r.sharedSecrets, p.1 ≠ secretKeysVar →
    p.1 ∉ Assoc.keys (r.hostPairs host) → env.lookup p.1 = some p.2
  perHost : ∀ k ∈ Assoc.keys (r.hostPairs host), k ≠ secretKeysVar →
    env.lookup k = Assoc.last? k (r.hostPairs host)
  keyList : ∀ w, w ∈ keyWords env ↔
    w ∈ Assoc.keys r.sharedSecrets ∨ w ∈ Assoc.keys (r.hostPairs host)

theorem lookup_withLoginPath (env : List EnvPair) (path : Option String) (k : String) :
    (withLoginPath env path).lookup k =
      (env.lookup k).or (if k = "PATH" then path else none) := by
  unfold withLoginPath
  by_cases hpath : (env.lookup "PATH").isSome = true
  · rw [if_pos hpath]
    by_cases hk : k = "PATH"
    · subst hk
      obtain ⟨value, hvalue⟩ := Option.isSome_iff_exists.mp hpath
      simp [hvalue]
    · simp [hk]
  · rw [if_neg hpath]
    cases path with
    | none => simp
    | some path =>
      rw [List.lookup_append]
      by_cases hk : k = "PATH"
      · subst hk
        simp
      · have hb : (k == "PATH") = false := by simpa using hk
        simp [List.lookup_cons, hb, hk]

theorem keyWords_withLoginPath (env : List EnvPair) (path : Option String) :
    keyWords (withLoginPath env path) = keyWords env := by
  have hkey : secretKeysVar ≠ "PATH" := by decide
  rw [keyWords, keyWords, lookup_withLoginPath, if_neg hkey, Option.or_none]

theorem lookup_targetEnv (r : ResolvedSecrets) (loginPath : Option String) (host : String)
    (t : Transport) {k : String} (hk : k ≠ secretKeysVar) :
    (targetEnv r loginPath host t).lookup k =
      (Assoc.last? k (r.hostPairs host)).or
        (if k = "PATH" then addedPath loginPath t else none) := by
  have hoverlay : (r.overlay [] host).lookup k = Assoc.last? k (r.hostPairs host) := by
    rw [r.lookup_overlay [] host hk]
    simp
  cases t with
  | ssh => simp [targetEnv, addedPath, hoverlay]
  | muxy => rw [targetEnv, lookup_withLoginPath, hoverlay, addedPath]

theorem mem_keyWords_targetEnv (r : ResolvedSecrets) (loginPath : Option String) (host : String)
    (t : Transport) (hvalid : ∀ p ∈ r.hostPairs host, isValidVarName p.1 = true) (w : String) :
    w ∈ keyWords (targetEnv r loginPath host t) ↔
      w ∈ r.hostKeyWords host [] ∨ w ∈ Assoc.keys (r.hostPairs host) := by
  have hwords := r.mem_keyWords_overlay [] host hvalid w
  cases t with
  | ssh => exact hwords
  | muxy => rwa [targetEnv, keyWords_withLoginPath]

section Resolved
variable {vault : Vault Identity} {entries : List SecretEntry} {hostAliases : List String}
  {identity : Option String} {maskMinLen : Nat} {r : ResolvedSecrets}

theorem valid_of_mem_hostPairs
    (h : resolveSecrets vault entries hostAliases identity maskMinLen = .ok r) (host : String) :
    ∀ p ∈ r.hostPairs host, isValidVarName p.1 = true := by
  obtain ⟨files, hfiles, hr⟩ := resolvedFrom_of_resolveSecrets h
  intro p hp
  rw [hr.hostPairs] at hp
  exact valid_of_mem_pairsFor hfiles hp

theorem lookup_startVars
    (h : resolveSecrets vault entries hostAliases identity maskMinLen = .ok r) {p : EnvPair}
    (hp : p ∈ r.sharedSecrets) (hk : p.1 ≠ secretKeysVar) :
    (startVars r).lookup p.1 = some p.2 := by
  obtain ⟨files, -, hr⟩ := resolvedFrom_of_resolveSecrets h
  have hsecret : Assoc.last? p.1 r.sharedSecrets = some p.2 := by
    rw [hr.sharedSecrets] at hp ⊢
    have hlast := (Assoc.mem_foldl_assign (pairsFor none files) [] p).mp hp
    rw [Assoc.last?_foldl_assign, Assoc.last?_nil, Option.or_none]
    simpa using hlast
  rw [startVars, Assoc.lookup_foldl_overwrite, hr.keyList]
  split
  · simp [hsecret]
  · rw [Assoc.last?_concat, if_neg (Ne.symm hk), hsecret]
    rfl

/-- The exported key list names the shared keys. -/
theorem mem_keyWords_startVars
    (h : resolveSecrets vault entries hostAliases identity maskMinLen = .ok r) (w : String) :
    w ∈ keyWords (startVars r) ↔ w ∈ Assoc.keys r.sharedSecrets := by
  obtain ⟨files, hfiles, hr⟩ := resolvedFrom_of_resolveSecrets h
  rw [hr.mem_keys_sharedSecrets, keyWords, startVars, Assoc.lookup_foldl_overwrite, hr.keyList]
  by_cases hkeys : sharedKeys files = []
  · have hnone : r.sharedSecrets = [] := by
      rw [hr.sharedSecrets, pairsFor_eq_nil hkeys, List.foldl_nil]
    simp [hkeys, hnone, Assoc.last?]
  · have hwords : ∀ v ∈ sharedKeys files, Str.IsWord v := by
      intro v hv
      obtain ⟨p, hp, rfl⟩ := List.mem_map.mp (mem_sharedKeys.mp hv)
      exact isWord_of_isValidVarName (valid_of_mem_pairsFor hfiles hp)
    rw [if_neg hkeys, Assoc.last?_concat, if_pos rfl, Option.some_or]
    simp only
    rw [Str.splitWhitespace_join _ hwords]

/-- A remote block without entries of its own gets every secret of its host, unless the host's
file sets the key list itself. -/
theorem remoteEnv_carriesSecrets
    (h : resolveSecrets vault entries hostAliases identity maskMinLen = .ok r)
    (processEnv : String → Option String) (loginPath : Option String) (host : String)
    (hlist : secretKeysVar ∉ Assoc.keys (r.hostPairs host)) :
    CarriesSecrets r host (remoteEnv r (startVars r) processEnv [] loginPath host) := by
  have hlookup : ∀ k, k ≠ secretKeysVar →
      (remoteEnv r (startVars r) processEnv [] loginPath host).lookup k =
        (Assoc.last? k (r.hostPairs host)).or (((startVars r).lookup k).or
          (if k = "PATH" then loginPath else none)) := by
    intro k hk
    rw [remoteEnv, r.lookup_overlay _ host hk, lookup_withLoginPath]
    rfl
  refine ⟨fun p hp hk hhost => ?_, fun k hk hne => ?_, fun w => ?_⟩
  · rw [hlookup p.1 hk, Assoc.last?_eq_none.mpr hhost, lookup_startVars h hp hk]
    rfl
  · obtain ⟨value, hvalue⟩ := Option.isSome_iff_exists.mp (Assoc.last?_isSome.mpr hk)
    rw [hlookup k hne, hvalue]
    rfl
  · rw [remoteEnv, r.mem_keyWords_overlay _ host (valid_of_mem_hostPairs h host)]
    rw [ResolvedSecrets.hostKeyWords, Assoc.last?_eq_none.mpr hlist]
    simp only
    rw [keyWords_withLoginPath]
    exact or_congr_left (mem_keyWords_startVars h w)

end Resolved

/-- A target-side command sees what a remote block sees only when the host's own file repeats
every shared key (or the login path happens to be the one shared value that is missing) and
names no further key in its own key list. -/
theorem targetEnv_carriesSecrets_iff (vault : Vault Identity) (entries : List SecretEntry)
    (hostAliases : List String) (identity : Option String) (maskMinLen : Nat)
    (r : ResolvedSecrets) (loginPath : Option String) (host : String) (t : Transport)
    (h : resolveSecrets vault entries hostAliases identity maskMinLen = .ok r) :
    CarriesSecrets r host (targetEnv r loginPath host t) ↔
      (∀ p ∈ r.sharedSecrets, p.1 ∈ Assoc.keys (r.hostPairs host) ∨
        (p.1 = "PATH" ∧ addedPath loginPath t = some p.2 ∧ p.1 ∈ r.hostKeyWords host [])) ∧
      ∀ w ∈ r.hostKeyWords host [],
        w ∈ Assoc.keys r.sharedSecrets ∨ w ∈ Assoc.keys (r.hostPairs host) := by
  have hwords := mem_keyWords_targetEnv r loginPath host t (valid_of_mem_hostPairs h host)
  have hlookup : ∀ k, k ≠ secretKeysVar → _ := fun k hk =>
    lookup_targetEnv r loginPath host t (k := k) hk
  constructor
  · intro hc
    refine ⟨fun p hp => ?_, fun w hw => (hc.keyList w).mp ((hwords w).mpr (Or.inl hw))⟩
    by_cases hhost : p.1 ∈ Assoc.keys (r.hostPairs host)
    · exact Or.inl hhost
    right
    have hlisted : p.1 ∈ r.hostKeyWords host [] := by
      have hunion := (hc.keyList p.1).mpr (Or.inl (Assoc.mem_keys_of_mem hp))
      exact ((hwords p.1).mp hunion).resolve_right hhost
    have hne : p.1 ≠ secretKeysVar := by
      intro hkey
      rw [hkey] at hhost
      rw [ResolvedSecrets.hostKeyWords, Assoc.last?_eq_none.mpr hhost] at hlisted
      simp [keyWords] at hlisted
    have hvalue := hc.shared p hp hne hhost
    rw [hlookup p.1 hne, Assoc.last?_eq_none.mpr hhost, Option.none_or] at hvalue
    by_cases hpath : p.1 = "PATH"
    · rw [if_pos hpath] at hvalue
      exact ⟨hpath, hvalue, hlisted⟩
    · rw [if_neg hpath] at hvalue
      cases hvalue
  · rintro ⟨hshared, hforeign⟩
    refine ⟨fun p hp hne hhost => ?_, fun k hk hne => ?_, fun w => ?_⟩
    · obtain ⟨hpath, hvalue, -⟩ := (hshared p hp).resolve_left hhost
      rw [hlookup p.1 hne, Assoc.last?_eq_none.mpr hhost, if_pos hpath, hvalue]
      rfl
    · obtain ⟨value, hvalue⟩ := Option.isSome_iff_exists.mp (Assoc.last?_isSome.mpr hk)
      rw [hlookup k hne, hvalue]
      rfl
    · rw [hwords]
      constructor
      · rintro (hw | hw)
        · exact hforeign w hw
        · exact Or.inr hw
      · rintro (hw | hw)
        · obtain ⟨p, hp, rfl⟩ := List.mem_map.mp hw
          rcases hshared p hp with hhost | ⟨-, -, hlisted⟩
          · exact Or.inr hhost
          · exact Or.inl hlisted
        · exact Or.inr hw

/-- One shared file and one file of the host `web1`. -/
def sharedAndHostVault : Vault Unit where
  expandHome path := .ok path
  effectiveIdentityPath path := .ok (path.getD "/root/.config/age/keys.txt")
  loadX25519Identity _ := .ok ()
  read path :=
    if path = "common.age" then .ok [1] else if path = "web1.age" then .ok [2]
    else .error "No such file or directory (os error 2)"
  decryptString cipher _ :=
    if cipher = [1] then .ok "SHARED=shared-value\n"
    else if cipher = [2] then .ok "API_KEY=api-value\n"
    else .error "decryption failed: not an age file"

def sharedAndHost : ResolvedSecrets :=
  ⟨[("SHARED", "shared-value"), (secretKeysVar, "SHARED")], [("web1", [("API_KEY", "api-value")])],
    ["shared-value", "api-value"], []⟩

theorem targetEnv_carriesSecrets_iff_web1 :
    CarriesSecrets sharedAndHost "web1" (targetEnv sharedAndHost none "web1" .ssh) ↔
      (∀ p ∈ sharedAndHost.sharedSecrets, p.1 ∈ Assoc.keys (sharedAndHost.hostPairs "web1") ∨
        (p.1 = "PATH" ∧ addedPath none .ssh = some p.2 ∧
          p.1 ∈ sharedAndHost.hostKeyWords "web1" [])) ∧
      ∀ w ∈ sharedAndHost.hostKeyWords "web1" [], w ∈ Assoc.keys sharedAndHost.sharedSecrets ∨
        w ∈ Assoc.keys (sharedAndHost.hostPairs "web1") :=
  targetEnv_carriesSecrets_iff sharedAndHostVault [⟨"common.age", none⟩, ⟨"{host}.age", none⟩]
    ["web1"] none 6 sharedAndHost none "web1" .ssh (by decide +kernel)

/-- The shared value never reaches the target command, and the key list does not name it. -/
theorem targetEnv_misses_the_shared_pairs :
    resolveSecrets sharedAndHostVault [⟨"common.age", none⟩, ⟨"{host}.age", none⟩] ["web1"] none 6 =
        .ok sharedAndHost ∧
      targetEnv sharedAndHost none "web1" .ssh =
        [("API_KEY", "api-value"), (secretKeysVar, "API_KEY")] ∧
      ¬CarriesSecrets sharedAndHost "web1" (targetEnv sharedAndHost none "web1" .ssh) := by
  refine ⟨by decide +kernel, by decide +kernel, fun hc => ?_⟩
  have hvalue := hc.shared ("SHARED", "shared-value") (by decide) (by decide) (by decide)
  exact absurd hvalue (by decide +kernel)

end Shellflow
