import Shellflow.Executor.StepEnv

/-! Which layer gives a variable of a step its value. -/
namespace Shellflow
open Assoc

/-- The variables of the run state: a map, in the order of its keys. -/
structure VarMap where
  pairs : List EnvPair
  nodup : (keys pairs).Nodup

/-- The value that an entry gives to a key, when it applies. -/
def entryValue (vars : List EnvPair) (processEnv : String → Option String) (k : String) :
    EnvEntry → Option String
  | .literal key value => if key = k then some value else none
  | .passthrough key => if key = k && (vars.lookup key).isNone then processEnv key else none

/-- The value of the last entry that applies. -/
def lastApplicable (vars : List EnvPair) (processEnv : String → Option String)
    (entries : List EnvEntry) (k : String) : Option String :=
  (entries.filterMap (entryValue vars processEnv k)).getLast?

/-- The value that the layers give to a key: the host's own pairs, the entries, the run state, and
for `PATH` the path of a login shell. -/
def layered (r : ResolvedSecrets) (vars : List EnvPair) (processEnv : String → Option String)
    (entries : List EnvEntry) (loginPath : Option String) (host k : String) : Option String :=
  (last? k (r.hostPairs host)).or ((lastApplicable vars processEnv entries k).or
    ((vars.lookup k).or (if k = "PATH" then loginPath else none)))

theorem lookup_buildEnvEntry (vars : List EnvPair) (processEnv : String → Option String)
    (env : List EnvPair) (entry : EnvEntry) (k : String) :
    (buildEnvEntry vars processEnv env entry).lookup k =
      (entryValue vars processEnv k entry).or (env.lookup k) := by
  cases entry with
  | literal key value =>
    rw [buildEnvEntry, lookup_assign, entryValue]
    by_cases hk : key = k
    · rw [if_pos hk, if_pos hk, Option.some_or]
    · rw [if_neg hk, if_neg hk, Option.none_or]
  | passthrough key =>
    rw [buildEnvEntry, entryValue]
    cases hbound : vars.lookup key with
    | some value => simp
    | none =>
      cases hprocess : processEnv key with
      | none => simp
      | some value =>
        dsimp only
        rw [if_neg (by simp), lookup_assign]
        by_cases hk : key = k
        · simp [hk]
        · simp [hk]

/-- One more entry wins over those before it when it applies. -/
theorem lookup_buildEnv (vars : List EnvPair) (processEnv : String → Option String)
    (entries : List EnvEntry) (k : String) :
    (buildEnv vars processEnv entries).lookup k =
      (lastApplicable vars processEnv entries k).or (vars.lookup k) := by
  induction entries using List.reverseRecOn with
  | nil => rfl
  | append_singleton entries entry ih =>
    have hstep : buildEnv vars processEnv (entries ++ [entry]) =
        buildEnvEntry vars processEnv (buildEnv vars processEnv entries) entry := by
      rw [buildEnv, List.foldl_append]
      rfl
    rw [hstep, lookup_buildEnvEntry, ih, lastApplicable, lastApplicable, List.filterMap_append,
      List.getLast?_append, ← Option.or_assoc]
    cases hvalue : entryValue vars processEnv k entry with
    | none => simp [hvalue]
    | some value => simp [hvalue]

theorem nodup_buildEnv (vars : VarMap) (processEnv : String → Option String)
    (entries : List EnvEntry) : (keys (buildEnv vars.pairs processEnv entries)).Nodup := by
  have hstep : ∀ env entry, (keys env).Nodup →
      (keys (buildEnvEntry vars.pairs processEnv env entry)).Nodup := by
    intro env entry henv
    cases entry with
    | literal key value => exact nodup_keys_assign _ henv
    | passthrough key =>
      rw [buildEnvEntry]
      split
      · exact henv
      · split
        · exact nodup_keys_assign _ henv
        · exact henv
  rw [buildEnv]
  induction entries using List.reverseRecOn with
  | nil => exact vars.nodup
  | append_singleton entries entry ih =>
    rw [List.foldl_append]
    exact hstep _ entry ih

theorem nodup_withLoginPath {env : List EnvPair} (path : Option String) (h : (keys env).Nodup) :
    (keys (withLoginPath env path)).Nodup := by
  by_cases hpath : (env.lookup "PATH").isSome = true
  · rw [withLoginPath.eq_def, if_pos hpath]
    exact h
  · rw [withLoginPath.eq_def, if_neg hpath]
    cases path with
    | none => exact h
    | some path =>
      dsimp only
      rw [keys_append]
      refine h.append (List.nodup_singleton "PATH") (List.disjoint_singleton.mpr fun hmem => ?_)
      exact hpath (mem_keys_iff_lookup.mp hmem)

theorem nodup_overlay (r : ResolvedSecrets) {env : List EnvPair} (host : String)
    (h : (keys env).Nodup) : (keys (r.overlay env host)).Nodup := by
  rw [ResolvedSecrets.overlay]
  split
  · exact h
  · exact nodup_keys_overwrite _ (nodup_keys_foldl_overwrite _ h)

/-- The listed keys, and behind them the host's own ones that are new. -/
def ListsKeys (existing : Option String) (pairs : List EnvPair) (listed : Option String) : Prop :=
  ∃ new : List String,
    listed = some (Str.join " " ((existing.map Str.splitWhitespace).getD [] ++ new)) ∧
      new.Nodup ∧ new.Sublist (keys pairs) ∧
      ∀ k, k ∈ new ↔ k ∈ keys pairs ∧ k ∉ (existing.map Str.splitWhitespace).getD []

theorem keyWords_eq (env : List EnvPair) :
    keyWords env = ((env.lookup secretKeysVar).map Str.splitWhitespace).getD [] := by
  rw [keyWords]
  cases env.lookup secretKeysVar <;> rfl

theorem listsKeys_overlay (r : ResolvedSecrets) (env : List EnvPair) {host : String}
    {pairs : List EnvPair} (hpairs : r.perHost.lookup host = some pairs) :
    ListsKeys ((last? secretKeysVar pairs).or (env.lookup secretKeysVar)) pairs
      ((r.overlay env host).lookup secretKeysVar) := by
  obtain ⟨own, hown, -, hownsub, hownmem⟩ := foldl_pushNew_eq (keys pairs) []
  obtain ⟨new, hnew, hnodup, hsub, hmem⟩ :=
    foldl_pushNew_eq own (keyWords (pairs.foldl overwrite env))
  rw [List.nil_append] at hown
  rw [keyWords_eq, lookup_foldl_overwrite] at hnew hmem
  refine ⟨new, ?_, hnodup, hsub.trans hownsub, fun k => ?_⟩
  · rw [ResolvedSecrets.overlay, hpairs]
    dsimp only
    rw [lookup_overwrite, if_pos rfl, hown, keyWords_eq, lookup_foldl_overwrite, hnew]
  · rw [hmem, hownmem]
    simp

/-- The keys are distinct, the layers come in their order, the key list grows by the host's own new
keys, and the pairs of the other hosts play no role. -/
theorem remoteEnv_precedence (r : ResolvedSecrets) (vars : VarMap)
    (processEnv : String → Option String) (entries : List EnvEntry) (loginPath : Option String)
    (host : String) :
    (keys (remoteEnv r vars.pairs processEnv entries loginPath host)).Nodup ∧
    (∀ k, k ≠ secretKeysVar →
      (remoteEnv r vars.pairs processEnv entries loginPath host).lookup k =
        layered r vars.pairs processEnv entries loginPath host k) ∧
    (match r.perHost.lookup host with
      | none => (remoteEnv r vars.pairs processEnv entries loginPath host).lookup secretKeysVar =
          layered r vars.pairs processEnv entries loginPath host secretKeysVar
      | some pairs =>
        ListsKeys (layered r vars.pairs processEnv entries loginPath host secretKeysVar) pairs
          ((remoteEnv r vars.pairs processEnv entries loginPath host).lookup secretKeysVar)) ∧
    ∀ r' : ResolvedSecrets, r'.perHost.lookup host = r.perHost.lookup host →
      remoteEnv r' vars.pairs processEnv entries loginPath host =
        remoteEnv r vars.pairs processEnv entries loginPath host := by
  have hbase : ∀ k, (withLoginPath (buildEnv vars.pairs processEnv entries) loginPath).lookup k =
      (lastApplicable vars.pairs processEnv entries k).or
        ((vars.pairs.lookup k).or (if k = "PATH" then loginPath else none)) := by
    intro k
    rw [lookup_withLoginPath, lookup_buildEnv, Option.or_assoc]
  refine ⟨?_, fun k hk => ?_, ?_, fun r' hr' => ?_⟩
  · exact nodup_overlay r host (nodup_withLoginPath loginPath (nodup_buildEnv vars processEnv entries))
  · rw [remoteEnv, r.lookup_overlay _ host hk, hbase, layered]
  · cases hpairs : r.perHost.lookup host with
    | none =>
      dsimp only
      rw [remoteEnv, ResolvedSecrets.overlay, hpairs, layered, ResolvedSecrets.hostPairs, hpairs]
      exact hbase secretKeysVar
    | some pairs =>
      dsimp only
      have hlists := listsKeys_overlay r
        (withLoginPath (buildEnv vars.pairs processEnv entries) loginPath) hpairs
      rw [hbase] at hlists
      rw [layered, ResolvedSecrets.hostPairs, hpairs, remoteEnv]
      exact hlists
  · rw [remoteEnv, remoteEnv, ResolvedSecrets.overlay, ResolvedSecrets.overlay, hr']

end Shellflow
