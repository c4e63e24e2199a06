import Shellflow.Secrets.Opened

/-! Is every delivered secret registered for redaction? The registry keeps one short value per
key, whatever host or file it came from, so a later file can drop a value that is still live. -/
namespace Shellflow
variable {Identity : Type}

/-- All pairs in the order in which they are registered. -/
def stream (files : List OpenedFile) : List EnvPair := files.flatMap OpenedFile.pairs

/-- The pairs of one host's files, or of the shared files. -/
def pairsFor (host : Option String) (files : List OpenedFile) : List EnvPair :=
  stream (files.filter fun f => f.host = host)

/-- A pair that reaches a target: the last shared value of its key, or a pair of some host. -/
def Delivered (files : List OpenedFile) (p : EnvPair) : Prop :=
  Assoc.last? p.1 (pairsFor none files) = some p.2 ∨ ∃ host, p ∈ pairsFor (some host) files

/-- Such a pair, read after `seen`, goes to the short list. -/
def NarrowAfter (maskMinLen : Nat) (seen : List EnvPair) (p : EnvPair) : Prop :=
  p.2 ≠ "" ∧ (p.2.utf8ByteSize < maskMinLen ∨ p.2 ∈ seen.map Prod.snd)

/-- After some occurrence of `p` nothing else goes to the short list under its key. -/
def Survives (maskMinLen : Nat) (pairs : List EnvPair) (p : EnvPair) : Prop :=
  ∃ pre post, pairs = pre ++ p :: post ∧
    ∀ a q b, post = a ++ q :: b → q.1 = p.1 → NarrowAfter maskMinLen (pre ++ p :: a) q → q = p

namespace ResolvedSecrets

def Registered (r : ResolvedSecrets) (p : EnvPair) : Prop := p.2 ∈ r.masks ∨ p ∈ r.shorts

/-- The shared pairs that come from files: the last one, if any, is the key list. -/
def sharedSecrets (r : ResolvedSecrets) : List EnvPair := r.shared.dropLast

def hostPairs (r : ResolvedSecrets) (host : String) : List EnvPair :=
  (r.perHost.lookup host).getD []

def AllRegistered (r : ResolvedSecrets) : Prop :=
  ∀ p : EnvPair, p.2 ≠ "" → (p ∈ r.sharedSecrets ∨ ∃ host, p ∈ r.hostPairs host) → r.Registered p

end ResolvedSecrets

/-! What the registry holds after a stream of pairs. -/

def registerAll (maskMinLen : Nat) (pairs : List EnvPair) : Registry :=
  pairs.foldl (register maskMinLen) ⟨[], []⟩

theorem registerAll_concat (maskMinLen : Nat) (pairs : List EnvPair) (q : EnvPair) :
    registerAll maskMinLen (pairs ++ [q]) = register maskMinLen (registerAll maskMinLen pairs) q := by
  simp [registerAll]

theorem mem_masks_registerAll {maskMinLen : Nat} {pairs : List EnvPair} {v : String} :
    v ∈ (registerAll maskMinLen pairs).masks ↔
      maskMinLen ≤ v.utf8ByteSize ∧ v ∈ pairs.map Prod.snd := by
  induction pairs using List.reverseRecOn with
  | nil => simp [registerAll]
  | append_singleton pairs q ih =>
    rw [registerAll_concat, register]
    by_cases hlong : maskMinLen ≤ q.2.utf8ByteSize ∧
        q.2 ∉ (registerAll maskMinLen pairs).masks
    · rw [if_pos hlong]
      by_cases hv : v = q.2
      · simp [hv, hlong.1]
      · simp [hv, ih]
    · have hmasks : v ∈ (if q.2 ≠ "" then
          { registerAll maskMinLen pairs with
            shorts := Assoc.assign (registerAll maskMinLen pairs).shorts q }
          else registerAll maskMinLen pairs).masks ↔
            v ∈ (registerAll maskMinLen pairs).masks := by
        split <;> rfl
      rw [if_neg hlong, hmasks]
      by_cases hv : v = q.2
      · subst hv
        rw [ih]
        simp only [List.map_append, List.map_cons, List.map_nil, List.mem_append,
          List.mem_singleton, or_true, and_true]
        refine ⟨fun h => h.1, fun h => ?_⟩
        have hseen : q.2 ∈ (registerAll maskMinLen pairs).masks := by
          by_contra hnot
          exact hlong ⟨h, hnot⟩
        exact ih.mp hseen
      · simp [hv, ih]

theorem survives_concat {maskMinLen : Nat} {pairs : List EnvPair} {p q : EnvPair} :
    Survives maskMinLen (pairs ++ [q]) p ↔
      p = q ∨ (Survives maskMinLen pairs p ∧
        (q.1 = p.1 → NarrowAfter maskMinLen pairs q → q = p)) := by
  constructor
  · rintro ⟨pre, post, hsplit, hpost⟩
    rcases List.eq_nil_or_concat post with rfl | ⟨post, q', rfl⟩
    · obtain ⟨-, h⟩ := List.append_inj' hsplit rfl
      exact Or.inl (List.singleton_inj.mp h).symm
    · right
      have hsplit' : pairs ++ [q] = (pre ++ p :: post) ++ [q'] := by simpa using hsplit
      obtain ⟨hpairs, hq⟩ := List.append_inj' hsplit' rfl
      obtain rfl := List.singleton_inj.mp hq
      refine ⟨⟨pre, post, hpairs, fun a r b hr => ?_⟩, fun hkey hnarrow => ?_⟩
      · exact hpost a r (b ++ [q]) (by simp [hr])
      · exact hpost post q [] (by simp) hkey (hpairs ▸ hnarrow)
  · rintro (rfl | ⟨⟨pre, post, rfl, hpost⟩, hlast⟩)
    · exact ⟨pairs, [], rfl, fun a r b h => by simp at h⟩
    · refine ⟨pre, post ++ [q], by simp, fun a r b hr hkey hnarrow => ?_⟩
      rcases List.eq_nil_or_concat b with rfl | ⟨b, r', rfl⟩
      · obtain ⟨hpost', hr'⟩ := List.append_inj' hr rfl
        obtain rfl := List.singleton_inj.mp hr'
        exact hlast hkey (hpost' ▸ hnarrow)
      · have hr' : post ++ [q] = (a ++ r :: b) ++ [r'] := by simpa using hr
        obtain ⟨hpost', -⟩ := List.append_inj' hr' rfl
        exact hpost a r b hpost' hkey hnarrow

theorem narrowAfter_iff {maskMinLen : Nat} {pairs : List EnvPair} {q : EnvPair} :
    NarrowAfter maskMinLen pairs q ↔ q.2 ≠ "" ∧
      ¬(maskMinLen ≤ q.2.utf8ByteSize ∧ q.2 ∉ (registerAll maskMinLen pairs).masks) := by
  rw [NarrowAfter, mem_masks_registerAll]
  refine and_congr_right fun _ => ?_
  by_cases hlen : maskMinLen ≤ q.2.utf8ByteSize
  · simp [hlen, Nat.not_lt.mpr hlen]
  · simp [hlen, Nat.lt_of_not_le hlen]

/-- A short value is on the short list exactly when its registration survives. -/
theorem mem_shorts_registerAll {maskMinLen : Nat} {pairs : List EnvPair} {p : EnvPair}
    (hne : p.2 ≠ "") (hshort : p.2.utf8ByteSize < maskMinLen) :
    p ∈ (registerAll maskMinLen pairs).shorts ↔ Survives maskMinLen pairs p := by
  induction pairs using List.reverseRecOn with
  | nil =>
    refine ⟨fun h => by simp [registerAll] at h, ?_⟩
    rintro ⟨pre, post, h, -⟩
    simp at h
  | append_singleton pairs q ih =>
    rw [registerAll_concat, survives_concat]
    by_cases hnarrow : NarrowAfter maskMinLen pairs q
    · obtain ⟨hq, hlong⟩ := narrowAfter_iff.mp hnarrow
      rw [register, if_neg hlong, if_pos hq, Assoc.mem_assign, ih]
      by_cases hpq : p = q
      · simp [hpq]
      · have hqp : q ≠ p := fun e => hpq e.symm
        simp only [hpq, false_or, hnarrow, hqp]
        tauto
    · have hshorts : (register maskMinLen (registerAll maskMinLen pairs) q).shorts =
          (registerAll maskMinLen pairs).shorts := by
        rw [narrowAfter_iff] at hnarrow
        unfold register
        split
        · rfl
        · rw [if_neg (by tauto)]
      have hpq : p ≠ q := by
        rintro rfl
        exact hnarrow ⟨hne, Or.inl hshort⟩
      rw [hshorts, ih]
      simp [hpq, hnarrow]

/-! What placing the opened files leaves in each accumulator. -/

section Placed
variable (maskMinLen : Nat) (files : List OpenedFile)

def placed : Resolving Identity := files.foldl (place maskMinLen) Resolving.start

theorem placed_concat (f : OpenedFile) :
    (placed maskMinLen (files ++ [f]) : Resolving Identity) =
      place maskMinLen (placed maskMinLen files) f := by
  simp [placed]

theorem stream_concat (f : OpenedFile) : stream (files ++ [f]) = stream files ++ f.pairs := by
  simp [stream]

theorem pairsFor_concat (host : Option String) (f : OpenedFile) :
    pairsFor host (files ++ [f]) =
      pairsFor host files ++ if f.host = host then f.pairs else [] := by
  by_cases h : f.host = host <;> simp [pairsFor, stream, h]

theorem placed_registry :
    (placed maskMinLen files : Resolving Identity).registry =
      registerAll maskMinLen (stream files) := by
  induction files using List.reverseRecOn with
  | nil => rfl
  | append_singleton files f ih =>
    rw [placed_concat, stream_concat, registerAll, List.foldl_append, ← registerAll, ← ih]
    cases h : f.host <;> simp [place, h]

theorem placed_shared :
    (placed maskMinLen files : Resolving Identity).shared =
      (pairsFor none files).foldl Assoc.assign [] := by
  induction files using List.reverseRecOn with
  | nil => rfl
  | append_singleton files f ih =>
    rw [placed_concat, pairsFor_concat, List.foldl_append, ← ih]
    cases h : f.host <;> simp [place, h]

/-- The deduplicated keys of the shared files. -/
def sharedKeys : List String := (Assoc.keys (pairsFor none files)).foldl Assoc.pushNew []

theorem placed_sharedKeys :
    (placed maskMinLen files : Resolving Identity).sharedKeys =
      sharedKeys files := by
  induction files using List.reverseRecOn with
  | nil => rfl
  | append_singleton files f ih =>
    rw [placed_concat, sharedKeys, pairsFor_concat, Assoc.keys_append, List.foldl_append,
      ← sharedKeys, ← ih]
    cases h : f.host <;> simp [place, h]

theorem placed_hostPairs (host : String) :
    ((placed maskMinLen files : Resolving Identity).perHost.lookup host).getD [] =
      pairsFor (some host) files := by
  induction files using List.reverseRecOn with
  | nil => rfl
  | append_singleton files f ih =>
    rw [placed_concat, pairsFor_concat, ← ih]
    cases h : f.host with
    | none => simp [place, h]
    | some own =>
      by_cases heq : own = host
      · subst heq
        simp [place, h, Assoc.lookup_modify]
      · simp [place, h, Assoc.lookup_modify, heq]

end Placed

/-- The resolved set as a function of the opened files. -/
structure ResolvedFrom (maskMinLen : Nat) (files : List OpenedFile) (r : ResolvedSecrets) :
    Prop where
  sharedSecrets : r.sharedSecrets = (pairsFor none files).foldl Assoc.assign []
  keyList : r.shared = r.sharedSecrets ++
    (if sharedKeys files = [] then [] else [(secretKeysVar, Str.join " " (sharedKeys files))])
  hostPairs : ∀ host, r.hostPairs host = pairsFor (some host) files
  masks : r.masks = (registerAll maskMinLen (stream files)).masks
  shorts : r.shorts = (registerAll maskMinLen (stream files)).shorts

theorem mem_sharedKeys {files : List OpenedFile} {k : String} :
    k ∈ sharedKeys files ↔ k ∈ Assoc.keys (pairsFor none files) := by
  rw [sharedKeys, Assoc.mem_foldl_pushNew]
  simp

theorem pairsFor_eq_nil {files : List OpenedFile} (h : sharedKeys files = []) :
    pairsFor none files = [] := by
  refine List.eq_nil_iff_forall_not_mem.mpr fun p hp => ?_
  have hkey : p.1 ∈ sharedKeys files := mem_sharedKeys.mpr (Assoc.mem_keys_of_mem hp)
  rw [h] at hkey
  cases hkey

theorem resolvedFrom_finish (maskMinLen : Nat) (files : List OpenedFile) :
    ResolvedFrom maskMinLen files (placed maskMinLen files : Resolving Identity).finish := by
  have hsecrets : ((placed maskMinLen files : Resolving Identity).finish).sharedSecrets =
      (pairsFor none files).foldl Assoc.assign [] := by
    unfold ResolvedSecrets.sharedSecrets Resolving.finish
    rw [placed_shared, placed_sharedKeys]
    by_cases hkeys : sharedKeys files = []
    · simp [hkeys, pairsFor_eq_nil hkeys]
    · simp [hkeys]
  refine ⟨hsecrets, ?_, fun host => placed_hostPairs maskMinLen files host, ?_, ?_⟩
  · rw [hsecrets]
    unfold Resolving.finish
    rw [placed_shared, placed_sharedKeys]
    by_cases hkeys : sharedKeys files = []
    · simp [hkeys]
    · simp [hkeys]
  · exact congrArg Registry.masks (@placed_registry Identity maskMinLen files)
  · exact congrArg Registry.shorts (@placed_registry Identity maskMinLen files)

theorem resolvedFrom_of_resolveSecrets {vault : Vault Identity} {entries : List SecretEntry}
    {hostAliases : List String} {identity : Option String} {maskMinLen : Nat}
    {r : ResolvedSecrets}
    (h : resolveSecrets vault entries hostAliases identity maskMinLen = .ok r) :
    ∃ files, openAll vault entries hostAliases identity = .ok files ∧
      ResolvedFrom maskMinLen files r := by
  rw [resolveSecrets_eq] at h
  obtain ⟨files, hfiles, rfl⟩ := Fallible.map_eq_ok.mp h
  exact ⟨files, hfiles, @resolvedFrom_finish Identity maskMinLen files⟩

theorem valid_of_mem_pairsFor {vault : Vault Identity} {entries : List SecretEntry}
    {hostAliases : List String} {identity : Option String} {files : List OpenedFile}
    (h : openAll vault entries hostAliases identity = .ok files) {host : Option String}
    {p : EnvPair} (hp : p ∈ pairsFor host files) : isValidVarName p.1 = true := by
  obtain ⟨f, hf, hpf⟩ := List.mem_flatMap.mp hp
  exact (openAll_ok h f (List.mem_filter.mp hf).1).2 p hpf

theorem mem_stream_of_delivered {files : List OpenedFile} {p : EnvPair}
    (h : Delivered files p) : p ∈ stream files := by
  have hsub : ∀ host, p ∈ pairsFor host files → p ∈ stream files := by
    intro host hp
    obtain ⟨f, hf, hpf⟩ := List.mem_flatMap.mp hp
    exact List.mem_flatMap.mpr ⟨f, (List.mem_filter.mp hf).1, hpf⟩
  rcases h with h | ⟨host, h⟩
  · exact hsub none (Assoc.mem_of_last? h)
  · exact hsub (some host) h

namespace ResolvedFrom
variable {maskMinLen : Nat} {files : List OpenedFile} {r : ResolvedSecrets}

theorem mem_keys_sharedSecrets (hr : ResolvedFrom maskMinLen files r) {k : String} :
    k ∈ Assoc.keys r.sharedSecrets ↔ k ∈ sharedKeys files := by
  rw [hr.sharedSecrets, mem_sharedKeys, ← Assoc.last?_isSome, ← Assoc.last?_isSome,
    Assoc.last?_foldl_assign]
  simp [Assoc.last?]

theorem delivered_iff (hr : ResolvedFrom maskMinLen files r) (p : EnvPair) :
    (p ∈ r.sharedSecrets ∨ ∃ host, p ∈ r.hostPairs host) ↔ Delivered files p := by
  simp only [hr.sharedSecrets, hr.hostPairs, Assoc.mem_foldl_assign, Delivered,
    List.not_mem_nil, and_false, or_false]

/-- A long value is always masked; a short one needs its registration to survive. -/
theorem registered_iff (hr : ResolvedFrom maskMinLen files r) {p : EnvPair}
    (hp : Delivered files p) (hne : p.2 ≠ "") :
    r.Registered p ↔
      (p.2.utf8ByteSize < maskMinLen → Survives maskMinLen (stream files) p) := by
  rw [ResolvedSecrets.Registered, hr.masks, hr.shorts, mem_masks_registerAll]
  by_cases hshort : p.2.utf8ByteSize < maskMinLen
  · rw [mem_shorts_registerAll hne hshort]
    simp [hshort, Nat.not_le.mpr hshort]
  · have hvalue : p.2 ∈ (stream files).map Prod.snd :=
      List.mem_map_of_mem (mem_stream_of_delivered hp)
    simp only [Nat.le_of_not_lt hshort, hvalue, and_self, true_or, hshort, false_implies]

end ResolvedFrom

/-- Every delivered secret is registered exactly when no later pair of its key, whatever host
or file it belongs to, takes the place of a short value on the short list. -/
theorem resolveSecrets_allRegistered_iff (vault : Vault Identity) (entries : List SecretEntry)
    (hostAliases : List String) (identity : Option String) (maskMinLen : Nat)
    (r : ResolvedSecrets)
    (h : resolveSecrets vault entries hostAliases identity maskMinLen = .ok r) :
    ∃ files, openAll vault entries hostAliases identity = .ok files ∧
      (r.AllRegistered ↔ ∀ p, Delivered files p → p.2 ≠ "" → p.2.utf8ByteSize < maskMinLen →
        Survives maskMinLen (stream files) p) := by
  obtain ⟨files, hfiles, hr⟩ := resolvedFrom_of_resolveSecrets h
  refine ⟨files, hfiles, ?_⟩
  constructor
  · intro hall p hp hne hshort
    exact (hr.registered_iff hp hne).mp (hall p hne ((hr.delivered_iff p).mpr hp)) hshort
  · intro hsurvive p hne hp
    have hdelivered := (hr.delivered_iff p).mp hp
    exact (hr.registered_iff hdelivered hne).mpr (hsurvive p hdelivered hne)

/-- Two hosts, each with a short value of its own under the same key. -/
def twoHostVault : Vault Unit where
  expandHome path := .ok path
  effectiveIdentityPath path := .ok (path.getD "/root/.config/age/keys.txt")
  loadX25519Identity _ := .ok ()
  read path :=
    if path = "web1.age" then .ok [1] else if path = "web2.age" then .ok [2]
    else .error "No such file or directory (os error 2)"
  decryptString cipher _ :=
    if cipher = [1] then .ok "TOKEN=abc\n" else if cipher = [2] then .ok "TOKEN=xyz\n"
    else .error "decryption failed: not an age file"

theorem resolveSecrets_allRegistered_iff_twoHosts :
    ∃ files, openAll twoHostVault [⟨"{host}.age", none⟩] ["web1", "web2"] none = .ok files ∧
      ((⟨[], [("web1", [("TOKEN", "abc")]), ("web2", [("TOKEN", "xyz")])], [],
          [("TOKEN", "xyz")]⟩ : ResolvedSecrets).AllRegistered ↔
        ∀ p, Delivered files p → p.2 ≠ "" → p.2.utf8ByteSize < 6 →
          Survives 6 (stream files) p) :=
  resolveSecrets_allRegistered_iff twoHostVault [⟨"{host}.age", none⟩] ["web1", "web2"] none 6
    _ (by decide +kernel)

/-- The second host's value takes the short entry of the first, whose value stays live. -/
theorem resolveSecrets_drops_a_live_value :
    ∃ r, resolveSecrets twoHostVault [⟨"{host}.age", none⟩] ["web1", "web2"] none 6 = .ok r ∧
      ("TOKEN", "abc") ∈ r.hostPairs "web1" ∧ ¬r.AllRegistered := by
  refine ⟨⟨[], [("web1", [("TOKEN", "abc")]), ("web2", [("TOKEN", "xyz")])], [],
    [("TOKEN", "xyz")]⟩, by decide +kernel, by decide, fun hall => ?_⟩
  have hregistered := hall ("TOKEN", "abc") (by decide) (Or.inr ⟨"web1", by decide⟩)
  exact absurd hregistered (by unfold ResolvedSecrets.Registered; decide)

end Shellflow
