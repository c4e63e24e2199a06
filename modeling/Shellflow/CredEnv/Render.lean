import Mathlib.Data.List.Nodup
import Shellflow.CredEnv.Template

/-! The credential renderer of the binary. -/
namespace Shellflow

/-- A regular file of the credential directory. -/
structure Credential where
  name : Raw
  bytes : Raw
deriving DecidableEq, Repr

def isUtf8 (bytes : Raw) : Bool := bytes.toByteArray.validateUTF8

inductive RenderError
  | unreadableTemplate
  | notUtf8 (name : Raw)
  | missing (keys : List MissingKey)
deriving DecidableEq, Repr

/-- The files with the name of a variable, sorted by it. -/
def loadCredentials (files : List Credential) : List Credential :=
  (files.filter fun f => isVarName f.name).insertionSort fun a b => a.name ≤ b.name

/-- The first value in that order that is not UTF-8 is an error, also when no key refers to it. -/
def credentialStrings : List Credential → Except RenderError (List Credential)
  | [] => .ok []
  | cred :: creds =>
    if isUtf8 cred.bytes then (credentialStrings creds).map (cred :: ·)
    else .error (.notUtf8 cred.name)

/-- The value of a key; the names are distinct. -/
def valueOf (creds : List Credential) (key : Raw) : Option Raw :=
  (creds.find? fun cred => cred.name == key).map Credential.bytes

/-- What is written, when the template is a text and every credential is. -/
def render (files : List Credential) (template : Raw) : Except RenderError Raw :=
  if isUtf8 template then
    match credentialStrings (loadCredentials files) with
    | .error e => .error e
    | .ok creds =>
      match renderTemplate template (valueOf creds) with
      | .error keys => .error (.missing keys)
      | .ok rendered => .ok rendered
  else .error .unreadableTemplate

theorem credentialStrings_toOption (creds : List Credential) :
    (credentialStrings creds).toOption =
      if ∀ cred ∈ creds, isUtf8 cred.bytes = true then some creds else none := by
  induction creds with
  | nil => rfl
  | cons cred creds ih =>
    rw [credentialStrings]
    by_cases hcred : isUtf8 cred.bytes = true
    · rw [if_pos hcred]
      simp only [List.forall_mem_cons, hcred, true_and]
      cases hrest : credentialStrings creds with
      | error e =>
        rw [hrest] at ih
        split at ih
        case isTrue => cases ih
        case isFalse hbad => rw [if_neg hbad]; rfl
      | ok rest =>
        rw [hrest] at ih
        split at ih
        case isTrue hall =>
          cases ih
          rw [if_pos hall]
          rfl
        case isFalse => cases ih
    · rw [if_neg hcred, if_neg fun h => hcred (h cred List.mem_cons_self)]
      rfl

theorem valueOf_eq_some_iff {creds : List Credential} {key value : Raw}
    (hdistinct : (creds.map Credential.name).Nodup) :
    valueOf creds key = some value ↔ ⟨key, value⟩ ∈ creds := by
  rw [valueOf, Option.map_eq_some_iff]
  constructor
  · intro h
    obtain ⟨cred, hfound, hvalue⟩ := h
    have hname : cred.name = key := eq_of_beq (List.find?_some hfound :)
    exact hname ▸ hvalue ▸ List.mem_of_find?_eq_some hfound
  · intro h
    cases hfound : creds.find? fun cred => cred.name == key with
    | none => exact absurd BEq.rfl (List.find?_eq_none.mp hfound _ h)
    | some cred =>
      have hname : cred.name = key := eq_of_beq (List.find?_some hfound :)
      have hsame := List.inj_on_of_nodup_map hdistinct (List.mem_of_find?_eq_some hfound) h hname
      exact ⟨cred, rfl, by rw [hsame]⟩

/-- Lookups do not depend on the order when the names are distinct. -/
theorem valueOf_perm {creds creds' : List Credential} (h : creds.Perm creds')
    (hdistinct : (creds.map Credential.name).Nodup) : valueOf creds = valueOf creds' := by
  funext key
  apply Option.ext
  intro value
  rw [valueOf_eq_some_iff hdistinct,
    valueOf_eq_some_iff ((h.map Credential.name).nodup_iff.mp hdistinct), h.mem_iff]

end Shellflow
