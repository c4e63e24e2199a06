import Shellflow.Secrets.Registered

/-! The `{host}` pairs of one target, layered onto the environment of a step. -/
namespace Shellflow
variable {Identity : Type}

/-- The keys listed in `LT_SECRET_KEYS`; an absent variable lists none. -/
def keyWords (env : List EnvPair) : List String :=
  match env.lookup secretKeysVar with
  | some value => Str.splitWhitespace value
  | none => []

theorem isWord_of_mem_keyWords {env : List EnvPair} {w : String} (h : w ∈ keyWords env) :
    Str.IsWord w := by
  unfold keyWords at h
  cases hkeys : env.lookup secretKeysVar with
  | none => simp [hkeys] at h
  | some value =>
    rw [hkeys] at h
    exact Str.isWord_of_mem_splitWhitespace h

namespace ResolvedSecrets

/-- The result for a playbook without `@secrets`. -/
def empty : ResolvedSecrets := ⟨[], [], [], []⟩

def hasForHost (r : ResolvedSecrets) (host : String) : Bool :=
  r.shared ≠ [] || (r.perHost.lookup host).isSome

def overlay (r : ResolvedSecrets) (env : List EnvPair) (host : String) : List EnvPair :=
  match r.perHost.lookup host with
  | none => env
  | some pairs =>
    let env := pairs.foldl Assoc.overwrite env
    let hostKeys := (Assoc.keys pairs).foldl Assoc.pushNew []
    let all := hostKeys.foldl Assoc.pushNew (keyWords env)
    Assoc.overwrite env (secretKeysVar, Str.join " " all)

theorem lookup_overlay (r : ResolvedSecrets) (env : List EnvPair) (host : String) {k : String}
    (hk : k ≠ secretKeysVar) :
    (r.overlay env host).lookup k = (Assoc.last? k (r.hostPairs host)).or (env.lookup k) := by
  unfold overlay hostPairs
  cases r.perHost.lookup host with
  | none => simp [Assoc.last?]
  | some pairs =>
    simp only [Option.getD_some]
    rw [Assoc.lookup_overwrite, if_neg (Ne.symm hk), Assoc.lookup_foldl_overwrite]

/-- The names the host's own file gives for `LT_SECRET_KEYS`, if it sets the variable. -/
def hostKeyWords (r : ResolvedSecrets) (host : String) (env : List EnvPair) : List String :=
  match Assoc.last? secretKeysVar (r.hostPairs host) with
  | some value => Str.splitWhitespace value
  | none => keyWords env

theorem mem_keyWords_overlay (r : ResolvedSecrets) (env : List EnvPair) (host : String)
    (hvalid : ∀ p ∈ r.hostPairs host, isValidVarName p.1 = true) (w : String) :
    w ∈ keyWords (r.overlay env host) ↔
      w ∈ r.hostKeyWords host env ∨ w ∈ Assoc.keys (r.hostPairs host) := by
  unfold overlay hostKeyWords
  unfold hostPairs at hvalid ⊢
  cases hpairs : r.perHost.lookup host with
  | none => simp [Assoc.last?]
  | some pairs =>
    rw [hpairs] at hvalid
    simp only [Option.getD_some] at hvalid ⊢
    have hold : ∀ v, v ∈ keyWords (pairs.foldl Assoc.overwrite env) ↔
        v ∈ (match Assoc.last? secretKeysVar pairs with
          | some value => Str.splitWhitespace value
          | none => keyWords env) := by
      intro v
      rw [keyWords, Assoc.lookup_foldl_overwrite]
      cases Assoc.last? secretKeysVar pairs with
      | none => rw [Option.none_or, keyWords]
      | some value => rw [Option.some_or]
    have hall : ∀ v, v ∈ ((Assoc.keys pairs).foldl Assoc.pushNew []).foldl Assoc.pushNew
        (keyWords (pairs.foldl Assoc.overwrite env)) ↔
          v ∈ keyWords (pairs.foldl Assoc.overwrite env) ∨ v ∈ Assoc.keys pairs := by
      intro v
      rw [Assoc.mem_foldl_pushNew, Assoc.mem_foldl_pushNew]
      simp
    have hwords : ∀ v ∈ ((Assoc.keys pairs).foldl Assoc.pushNew []).foldl Assoc.pushNew
        (keyWords (pairs.foldl Assoc.overwrite env)), Str.IsWord v := by
      intro v hv
      rcases (hall v).mp hv with hv | hv
      · exact isWord_of_mem_keyWords hv
      · obtain ⟨p, hp, rfl⟩ := List.mem_map.mp hv
        exact isWord_of_isValidVarName (hvalid p hp)
    rw [keyWords, Assoc.lookup_overwrite, if_pos rfl]
    simp only
    rw [Str.splitWhitespace_join _ hwords, hall, hold]

end ResolvedSecrets

end Shellflow
