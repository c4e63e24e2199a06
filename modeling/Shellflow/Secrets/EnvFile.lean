import Shellflow.Lib.Assoc
import Shellflow.Lib.Fallible
import Shellflow.Text

/-! `KEY=VALUE` environment files, the plaintext of an encrypted `.env.age` file. -/
namespace Shellflow

inductive SecretsError
  | malformedEnv (line : Nat) (reason : String)
deriving DecidableEq, Repr

def SecretsError.display : SecretsError → String
  | .malformedEnv line reason => s!"line {line}: malformed env entry: {reason}"

/-- One line of the file: nothing, or a key with its value. -/
def parseEnvLine (idx : Nat) (raw : String) : Except SecretsError (Option (String × String)) :=
  let raw := (Str.stripSuffix raw "\r").getD raw
  let line := Str.trim raw
  if line = "" ∨ Str.startsWith line "#" then .ok none
  else
    let assignment := Str.trim ((Str.stripPrefix line "export ").getD line)
    match Str.splitOnce assignment "=" with
    | none => .error (.malformedEnv (idx + 1) "expected `KEY=VALUE`")
    | some (key, value) =>
      let key := Str.trim key
      if isValidVarName key then .ok (some (key, stripSurroundingQuotes value))
      else .error (.malformedEnv (idx + 1) s!"invalid variable name `{key}`")

/-- A later assignment wins; the key keeps its first position. -/
def addEnvPair (out : List (String × String)) : Option (String × String) → List (String × String)
  | none => out
  | some pair => Assoc.overwrite out pair

def addEnvLine (out : List (String × String)) (l : String × Nat) :
    Except SecretsError (List (String × String)) :=
  addEnvPair out <$> parseEnvLine l.2 l.1

def parseEnvFile (content : String) : Except SecretsError (List (String × String)) :=
  let content := (Str.stripPrefix content "\uFEFF").getD content
  (Str.lines content).zipIdx.foldlM addEnvLine []

theorem parseEnvLine_key {idx : Nat} {raw : String} {pair : String × String}
    (h : parseEnvLine idx raw = .ok (some pair)) : isValidVarName pair.1 = true := by
  unfold parseEnvLine at h
  dsimp only at h
  split at h
  · cases h
  · split at h
    · cases h
    · split at h
      · next hkey =>
        cases h
        exact hkey
      · cases h

/-- Every key of an accepted file is a shell identifier. -/
theorem parseEnvFile_keys {content : String} {pairs : List (String × String)}
    (h : parseEnvFile content = .ok pairs) : ∀ p ∈ pairs, isValidVarName p.1 = true := by
  refine Fallible.foldlM_invariant (fun out => ∀ p ∈ out, isValidVarName p.1 = true)
    (fun out l out' hout hstep => ?_) (fun p hp => absurd hp List.not_mem_nil) h
  obtain ⟨found, hl, rfl⟩ := Fallible.map_eq_ok.mp hstep
  intro p hp
  cases found with
  | none => exact hout p hp
  | some pair =>
    rcases Assoc.key_mem_overwrite hp with hkey | hmem
    · rw [hkey]
      exact parseEnvLine_key hl
    · obtain ⟨q, hq, hkey⟩ := List.mem_map.mp hmem
      rw [← hkey]
      exact hout q hq

/-- A repeated key appears once. -/
theorem parseEnvFile_nodup {content : String} {pairs : List (String × String)}
    (h : parseEnvFile content = .ok pairs) : (Assoc.keys pairs).Nodup := by
  refine Fallible.foldlM_invariant (fun out => (Assoc.keys out).Nodup)
    (fun out l out' hout hstep => ?_) (by simp) h
  obtain ⟨found, -, rfl⟩ := Fallible.map_eq_ok.mp hstep
  cases found with
  | none => exact hout
  | some pair => exact Assoc.nodup_keys_overwrite pair hout

end Shellflow
