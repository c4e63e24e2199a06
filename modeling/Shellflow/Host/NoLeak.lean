import Shellflow.Host.Credstore

/-! The leak assertion: the credentials of a service are looked for in what its unit shows. -/
namespace Shellflow

/-- A program that ran, with its output as text. -/
structure ToolOutput where
  success : Bool
  stdout : String

/-- What the assertion asks of the host besides the directory of the store; no answer is a program
that did not start or a file that could not be read as text. -/
structure LeakTools (W : Type) where
  decrypt : String → W → Except String ToolOutput
  journalctl : List String → W → Option ToolOutput
  systemctl : List String → W → Except HostError ToolOutput
  readText : String → W → Option String

/-- What a source of the assertion really holds. -/
inductive Content
  | absent
  | unreadable
  | text (text : String)
deriving DecidableEq

section NoLeak
variable {W : Type} (m : Machine W) (ctx : ProcessContext) (t : LeakTools W)

def decryptCredential (path : String) (w : W) : Except HostError String :=
  match t.decrypt path w with
  | .error err => .error (.internal s!"cannot run `systemd-creds`: {err}")
  | .ok out =>
    if out.success then .ok (Str.trim out.stdout)
    else .error (.internal "`systemd-creds decrypt` failed")

def mainPid (unit : String) (w : W) : Except HostError String := do
  let out ← t.systemctl ["show", unit, "-p", "MainPID", "--value"] w
  let pid := Str.trim out.stdout
  if pid = "" || pid = "0" then .error (.failed s!"{unit} has no main process") else .ok pid

/-- Short values match by accident, so they are not looked for. -/
def isLeakable (value : String) : Bool := 4 ≤ value.utf8ByteSize

/-- The sources the values are found in, sorted and each once. -/
def leakedSources (values : List String) (haystacks : List (String × String)) : List String :=
  nameSet (values.flatMap fun value =>
    (haystacks.filter fun h => Str.contains h.2 value).map Prod.fst)

def journalSource (unit : String) (lines : Nat) (w : W) : List (String × String) :=
  match t.journalctl [s!"-u{unit}", "--no-pager", s!"-n{lines}"] w with
  | some out => [(s!"the journal of {unit}", out.stdout)]
  | none => []

def commandSource (unit : String) (w : W) : List (String × String) :=
  match t.systemctl ["show", unit, "-p", "ExecStart", "-p", "Environment"] w with
  | .ok out => [(s!"the command line of {unit}", out.stdout)]
  | .error _ => []

def environSource (unit : String) (w : W) : List (String × String) :=
  match mainPid t unit w with
  | .error _ => []
  | .ok pid =>
    match t.readText s!"/proc/{pid}/environ" w with
    | some text => [(s!"the environment of {unit}", text)]
    | none => []

/-- The texts a credential value could leak into. -/
def collectLeakSources (unit : String) (lines : Nat) (w : W) : List (String × String) :=
  journalSource t unit lines w ++ (commandSource t unit w ++ environSource t unit w)

/-- The unit without the suffix, however often it has it. -/
def serviceOf (unit : String) : String :=
  String.ofList (Str.trimPatternChars ".service".toList.reverse unit.length
    unit.toList.reverse).reverse

structure NoLeakArgs where
  unit : String
  lines : Nat

/-- The credentials that are decrypted, and their values. -/
def decryptedKeys (store : String) (keys : List String) (w : W) : List (String × String) :=
  keys.filterMap fun key =>
    (decryptCredential t (store ++ "/" ++ key) w).toOption.map fun value => (key, value)

/-- The verdict, and what was decrypted on the way to it. -/
def assertNoLeak (args : NoLeakArgs) (w : W) : Except HostError Unit × List (String × String) :=
  let unit := normalizeUnit args.unit
  match validateUnit unit with
  | .error e => (.error e, [])
  | .ok () =>
    let service := serviceOf unit
    let store := storePath service
    if dirExistsElevated m ctx store w then
      match storeKeys m ctx store w with
      | .error e => (.error e, [])
      | .ok keys =>
        let found := decryptedKeys t store keys w
        let values := (found.map Prod.snd).filter isLeakable
        if values = [] then (.ok (), found)
        else
          let leaks := leakedSources values (collectLeakSources t unit args.lines w)
          if leaks = [] then (.ok (), found)
          else
            (.error (.failed (s!"a credential value of {service} appears in: " ++
              Str.join ", " leaks)), found)
    else (.ok (), [])

end NoLeak

section Meaning
variable {W : Type} (m : Machine W) (ctx : ProcessContext) (t : LeakTools W)

/-- A program that fails has not shown its source. -/
def Content.ofOutput : Option ToolOutput → Content
  | none => .unreadable
  | some out => if out.success then .text out.stdout else .unreadable

def journalContent (unit : String) (lines : Nat) (w : W) : Content :=
  .ofOutput (t.journalctl [s!"-u{unit}", "--no-pager", s!"-n{lines}"] w)

def commandContent (unit : String) (w : W) : Content :=
  .ofOutput (t.systemctl ["show", unit, "-p", "ExecStart", "-p", "Environment"] w).toOption

/-- A unit without a main process has no environment to look at. -/
def environContent (unit : String) (w : W) : Content :=
  match Content.ofOutput (t.systemctl ["show", unit, "-p", "MainPID", "--value"] w).toOption with
  | .text answer =>
    let pid := Str.trim answer
    if pid = "" || pid = "0" then .absent
    else
      match t.readText s!"/proc/{pid}/environ" w with
      | some text => .text text
      | none => .unreadable
  | c => c

/-- The sources there are. -/
def leakContents (unit : String) (lines : Nat) (w : W) : List Content :=
  [journalContent t unit lines w, commandContent t unit w, environContent t unit w].filter
    fun c => c ≠ .absent

/-- Every credential of the store was decrypted, and a value that is worth looking for stands in no
source. -/
def NoneLeaked (stored : List String) (found : List (String × String)) (sources : List Content) :
    Prop :=
  ∀ key ∈ stored, ∃ value, (key, value) ∈ found ∧
    (isLeakable value = true → ∀ c ∈ sources, ∃ text, c = .text text ∧
      Str.contains text value = false)

/-- The assertion holds only where there is no leak, for the credentials the store holds. -/
def FailsClosed (args : NoLeakArgs) (stored : List String) (w : W) : Prop :=
  (assertNoLeak m ctx t args w).1 = .ok () →
    NoneLeaked stored (assertNoLeak m ctx t args w).2
      (leakContents t (normalizeUnit args.unit) args.lines w)

def NoLeakArgs.store (args : NoLeakArgs) : String := storePath (serviceOf (normalizeUnit args.unit))

/-- The credential is decrypted, and its value is this one. -/
def Decrypts (args : NoLeakArgs) (w : W) (key value : String) : Prop :=
  decryptCredential t (args.store ++ "/" ++ key) w = .ok value

/-- The process sees the directory of the store and these keys in it. -/
def Lists (args : NoLeakArgs) (w : W) (keys : List String) : Prop :=
  dirExistsElevated m ctx args.store w = true ∧ storeKeys m ctx args.store w = .ok keys

/-- The assertion fails: the unit is no unit, the store cannot be listed, or a value it decrypted
is in a text it read. -/
inductive Refused (args : NoLeakArgs) (w : W) : Prop
  | unit (h : isValidUnitName (normalizeUnit args.unit) = false)
  | store (hdir : dirExistsElevated m ctx args.store w = true) (e : HostError)
      (h : storeKeys m ctx args.store w = .error e)
  | leak (keys : List String) (hkeys : Lists m ctx args w keys) (key : String) (hkey : key ∈ keys)
      (value : String) (hvalue : Decrypts t args w key value) (hlong : isLeakable value = true)
      (source : String × String)
      (hsource : source ∈ collectLeakSources t (normalizeUnit args.unit) args.lines w)
      (h : Str.contains source.2 value = true)

/-- No credential is passed over, and no source when there is a value to look for. -/
structure NothingSkipped (args : NoLeakArgs) (stored : List String) (w : W) : Prop where
  decrypts : ∀ key ∈ stored, (∃ keys, Lists m ctx args w keys ∧ key ∈ keys) ∧
    ∃ value, Decrypts t args w key value
  reads : (∃ key ∈ stored, ∃ value, Decrypts t args w key value ∧ isLeakable value = true) →
    .unreadable ∉ leakContents t (normalizeUnit args.unit) args.lines w

end Meaning

section Verdict
variable {W : Type} {m : Machine W} {ctx : ProcessContext} {t : LeakTools W} {args : NoLeakArgs} {w : W}

theorem nameSet_eq_nil {names : List String} : nameSet names = [] ↔ names = [] := by
  have hlen : (nameSet names).length = names.eraseDups.length := List.length_mergeSort _
  rw [← List.length_eq_zero_iff, hlen, List.length_eq_zero_iff]
  cases names with
  | nil => simp
  | cons name names => simp [List.eraseDups_cons]

theorem leakedSources_eq_nil {values : List String} {haystacks : List (String × String)} :
    leakedSources values haystacks = [] ↔
      ∀ value ∈ values, ∀ h ∈ haystacks, Str.contains h.2 value = false := by
  rw [leakedSources, nameSet_eq_nil]
  simp [List.flatMap_eq_nil_iff]

theorem mem_decryptedKeys {store : String} {keys : List String} {key value : String} :
    (key, value) ∈ decryptedKeys t store keys w ↔
      key ∈ keys ∧ decryptCredential t (store ++ "/" ++ key) w = .ok value := by
  have htoOption : ∀ (x : Except HostError String) (v : String),
      x.toOption = some v ↔ x = .ok v := by
    intro x v
    cases x <;> simp [Except.toOption]
  simp only [decryptedKeys, List.mem_filterMap, Option.map_eq_some_iff, htoOption, Prod.mk.injEq]
  constructor
  · rintro ⟨_, hkey, _, hvalue, rfl, rfl⟩
    exact ⟨hkey, hvalue⟩
  · rintro ⟨hkey, hvalue⟩
    exact ⟨key, hkey, value, hvalue, rfl, rfl⟩

theorem validateUnit_of_valid {unit : String} (h : isValidUnitName unit = true) :
    validateUnit unit = .ok () := by
  cases validateUnit_eq unit with
  | inl hok => exact hok.1
  | inr herr =>
    rw [herr.2] at h
    cases h

theorem assertNoLeak_invalid (h : isValidUnitName (normalizeUnit args.unit) = false) :
    ∃ e, assertNoLeak m ctx t args w = (.error e, []) := by
  cases validateUnit_eq (normalizeUnit args.unit) with
  | inl hok =>
    rw [hok.2] at h
    cases h
  | inr herr =>
    obtain ⟨⟨message, hmessage⟩, -⟩ := herr
    exact ⟨.usage message, by simp only [assertNoLeak, hmessage]⟩

/-- A store that the process does not see counts as none. -/
theorem assertNoLeak_unseen (h : isValidUnitName (normalizeUnit args.unit) = true)
    (hdir : dirExistsElevated m ctx args.store w = false) :
    assertNoLeak m ctx t args w = (.ok (), []) := by
  rw [NoLeakArgs.store] at hdir
  simp only [assertNoLeak, validateUnit_of_valid h, hdir, Bool.false_eq_true, if_false]

theorem assertNoLeak_unlisted {e : HostError} (h : isValidUnitName (normalizeUnit args.unit) = true)
    (hdir : dirExistsElevated m ctx args.store w = true)
    (hkeys : storeKeys m ctx args.store w = .error e) :
    assertNoLeak m ctx t args w = (.error e, []) := by
  rw [NoLeakArgs.store] at hdir hkeys
  simp only [assertNoLeak, validateUnit_of_valid h, hdir, if_true, hkeys]

/-- Behind the listing, everything that decrypts is looked for in everything that was read. -/
theorem assertNoLeak_listed {keys : List String}
    (h : isValidUnitName (normalizeUnit args.unit) = true) (hkeys : Lists m ctx args w keys) :
    (assertNoLeak m ctx t args w).2 = decryptedKeys t args.store keys w ∧
      ((assertNoLeak m ctx t args w).1 = .ok () ↔
        ∀ key ∈ keys, ∀ value, Decrypts t args w key value → isLeakable value = true →
          ∀ source ∈ collectLeakSources t (normalizeUnit args.unit) args.lines w,
            Str.contains source.2 value = false) := by
  obtain ⟨hdir, hkeys⟩ := hkeys
  rw [NoLeakArgs.store] at hdir hkeys
  have hlooked : ∀ haystacks, leakedSources (((decryptedKeys t args.store keys w).map
      Prod.snd).filter isLeakable) haystacks = [] ↔
        ∀ key ∈ keys, ∀ value, Decrypts t args w key value → isLeakable value = true →
          ∀ source ∈ haystacks, Str.contains source.2 value = false := by
    intro haystacks
    simp only [leakedSources_eq_nil, List.mem_filter, List.mem_map, Prod.exists, mem_decryptedKeys,
      exists_eq_right, and_imp, forall_exists_index, Decrypts]
    constructor
    · intro hall key hkey value hvalue hlong
      exact hall value key hkey hvalue hlong
    · intro hall value key hkey hvalue hlong
      exact hall key hkey value hvalue hlong
  rw [← hlooked, NoLeakArgs.store]
  simp only [assertNoLeak, validateUnit_of_valid h, hdir, if_true, hkeys]
  split
  next hnone => simp [hnone, leakedSources, nameSet_eq_nil]
  next => split <;> simp_all

theorem assertNoLeak_ok_iff :
    (assertNoLeak m ctx t args w).1 = .ok () ↔ ¬ Refused m ctx t args w := by
  by_cases hunit : isValidUnitName (normalizeUnit args.unit) = true
  case neg =>
    rw [Bool.not_eq_true] at hunit
    obtain ⟨e, he⟩ := @assertNoLeak_invalid _ m ctx t _ w hunit
    rw [he]
    exact iff_of_false nofun (not_not_intro (.unit hunit))
  have hvalid : ¬ isValidUnitName (normalizeUnit args.unit) = false := by simp [hunit]
  by_cases hdir : dirExistsElevated m ctx args.store w = true
  case neg =>
    have hunseen := assertNoLeak_unseen (t := t) hunit (Bool.not_eq_true _ ▸ hdir)
    refine iff_of_true (by rw [hunseen]) fun hrefused => ?_
    cases hrefused with
    | unit h => exact hvalid h
    | store h => exact hdir h
    | leak keys hkeys => exact hdir hkeys.1
  cases hkeys : storeKeys m ctx args.store w with
  | error e =>
    rw [assertNoLeak_unlisted hunit hdir hkeys]
    exact iff_of_false nofun (not_not_intro (.store hdir e hkeys))
  | ok keys =>
    rw [(assertNoLeak_listed hunit ⟨hdir, hkeys⟩).2]
    constructor
    · intro hclean hrefused
      cases hrefused with
      | unit h => exact hvalid h
      | store _ e h =>
        rw [hkeys] at h
        cases h
      | leak keys' hkeys' key hkey value hvalue hlong source hsource h =>
        obtain rfl : keys = keys' := Except.ok.inj (hkeys.symm.trans hkeys'.2)
        rw [hclean key hkey value hvalue hlong source hsource] at h
        cases h
    · intro hnot key hkey value hvalue hlong source hsource
      by_contra hleak
      exact hnot (.leak keys ⟨hdir, hkeys⟩ key hkey value hvalue hlong source hsource
        (Bool.not_eq_false _ ▸ hleak))

/-- What was decrypted are the keys of the listing that decrypt. -/
theorem mem_assertNoLeak {key value : String} :
    (key, value) ∈ (assertNoLeak m ctx t args w).2 ↔
      isValidUnitName (normalizeUnit args.unit) = true ∧
        (∃ keys, Lists m ctx args w keys ∧ key ∈ keys) ∧ Decrypts t args w key value := by
  by_cases hunit : isValidUnitName (normalizeUnit args.unit) = true
  case neg =>
    obtain ⟨e, he⟩ := @assertNoLeak_invalid _ m ctx t _ w (Bool.not_eq_true _ ▸ hunit)
    simp [he, hunit]
  by_cases hdir : dirExistsElevated m ctx args.store w = true
  case neg => simp [assertNoLeak_unseen hunit (Bool.not_eq_true _ ▸ hdir), Lists, hdir]
  cases hkeys : storeKeys m ctx args.store w with
  | error e => simp [assertNoLeak_unlisted hunit hdir hkeys, Lists, hkeys]
  | ok keys =>
    rw [(assertNoLeak_listed hunit ⟨hdir, hkeys⟩).1, mem_decryptedKeys]
    simp [Lists, Decrypts, hunit, hdir, hkeys]

theorem ofOutput_eq_text {out : Option ToolOutput} {text : String}
    (h : Content.ofOutput out = .text text) : ∃ o, out = some o ∧ o.stdout = text := by
  cases out with
  | none => cases h
  | some o =>
    rw [Content.ofOutput] at h
    split at h
    · exact ⟨o, rfl, Content.text.inj h⟩
    · cases h

theorem ok_of_toOption {α ε : Type} {x : Except ε α} {a : α} (h : x.toOption = some a) : x = .ok a := by
  cases x with
  | error e => cases h
  | ok b => exact congrArg Except.ok (Option.some.inj h)

theorem environSource_of_text {unit text : String} (h : environContent t unit w = .text text) :
    environSource t unit w = [(s!"the environment of {unit}", text)] := by
  unfold environContent at h
  cases hshow : Content.ofOutput
      (t.systemctl ["show", unit, "-p", "MainPID", "--value"] w).toOption with
  | text answer =>
    obtain ⟨out, hout, rfl⟩ := ofOutput_eq_text hshow
    simp only [hshow] at h
    split at h
    · cases h
    next hpid =>
      have hmain : mainPid t unit w = .ok (Str.trim out.stdout) := by
        rw [mainPid, ok_of_toOption hout]
        exact if_neg hpid
      split at h
      next read hread =>
        cases h
        simp only [environSource, hmain, hread]
      next => cases h
  | absent =>
    rw [hshow] at h
    cases h
  | unreadable =>
    rw [hshow] at h
    cases h

/-- A source that can be read is searched. -/
theorem exists_source {unit text : String} {lines : Nat}
    (h : .text text ∈ leakContents t unit lines w) :
    ∃ name, (name, text) ∈ collectLeakSources t unit lines w := by
  simp only [leakContents, List.mem_filter, List.mem_cons, List.not_mem_nil, or_false] at h
  rcases h.1 with hjournal | hcommand | henviron
  · obtain ⟨out, hout, rfl⟩ := ofOutput_eq_text hjournal.symm
    refine ⟨s!"the journal of {unit}", List.mem_append_left _ ?_⟩
    simp only [journalSource, hout, List.mem_singleton]
  · obtain ⟨out, hout, rfl⟩ := ofOutput_eq_text hcommand.symm
    refine ⟨s!"the command line of {unit}", List.mem_append_right _ (List.mem_append_left _ ?_)⟩
    simp [commandSource, ok_of_toOption hout]
  · refine ⟨s!"the environment of {unit}", List.mem_append_right _ (List.mem_append_right _ ?_)⟩
    simp [environSource_of_text henviron.symm]

/-- The assertion fails closed exactly when it fails anyway or passes nothing over. -/
theorem assertNoLeak_closed_iff (stored : List String) :
    FailsClosed m ctx t args stored w ↔
      Refused m ctx t args w ∨ NothingSkipped m ctx t args stored w := by
  rw [FailsClosed, assertNoLeak_ok_iff]
  constructor
  · intro h
    by_cases hrefused : Refused m ctx t args w
    · exact .inl hrefused
    have hleaked := h hrefused
    refine .inr ⟨fun key hkey => ?_, ?_⟩
    · obtain ⟨value, hfound, -⟩ := hleaked key hkey
      obtain ⟨-, hlisted, hvalue⟩ := mem_assertNoLeak.mp hfound
      exact ⟨hlisted, value, hvalue⟩
    · rintro ⟨key, hkey, value, hvalue, hlong⟩ hunreadable
      obtain ⟨value', hfound, habsent⟩ := hleaked key hkey
      obtain ⟨-, -, hvalue'⟩ := mem_assertNoLeak.mp hfound
      obtain rfl : value = value' := Except.ok.inj (hvalue.symm.trans hvalue')
      obtain ⟨text, htext, -⟩ := habsent hlong _ hunreadable
      cases htext
  · rintro (hrefused | hskipped) hnot
    · exact absurd hrefused hnot
    intro key hkey
    obtain ⟨hlisted, value, hvalue⟩ := hskipped.decrypts key hkey
    have hunit : isValidUnitName (normalizeUnit args.unit) = true := by
      by_contra hbad
      exact hnot (.unit (Bool.not_eq_true _ ▸ hbad))
    refine ⟨value, mem_assertNoLeak.mpr ⟨hunit, hlisted, hvalue⟩, fun hlong c hc => ?_⟩
    obtain ⟨keys, hkeys, hmem⟩ := hlisted
    cases c with
    | absent => simp [leakContents] at hc
    | unreadable => exact absurd hc (hskipped.reads ⟨key, hkey, value, hvalue, hlong⟩)
    | text text =>
      obtain ⟨name, hsource⟩ := exists_source hc
      refine ⟨text, rfl, ?_⟩
      by_contra hleak
      exact hnot (.leak keys hkeys key hmem value hvalue hlong (name, text) hsource
        (Bool.not_eq_false _ ▸ hleak))

end Verdict

/-- The store lists one credential. -/
def tokenMachine : Machine Unit := { sudoMachine with sudoList := fun _ _ => .names ["TOKEN"] }

/-- A host whose key no longer decrypts the credential, and whose unit prints it. -/
def leakyHost : LeakTools Unit where
  decrypt := fun _ _ => .ok ⟨false, ""⟩
  journalctl := fun _ _ => some ⟨true, "token=s3cr3t"⟩
  systemctl := fun _ _ => .ok ⟨true, "0"⟩
  readText := fun _ _ => none

/-- The assertion holds although the one credential could not be decrypted. -/
theorem assertNoLeak_passes_undecrypted :
    ¬ ∀ (m : Machine Unit) ctx t args stored, FailsClosed m ctx t args stored () := by
  intro hall
  have hok : (assertNoLeak tokenMachine deployUser leakyHost ⟨"app", 200⟩ ()).1 = .ok () := by
    decide +kernel
  have hnone : (assertNoLeak tokenMachine deployUser leakyHost ⟨"app", 200⟩ ()).2 = [] := by
    decide +kernel
  obtain ⟨value, hfound, -⟩ := hall tokenMachine deployUser leakyHost ⟨"app", 200⟩ ["TOKEN"] hok
    "TOKEN" List.mem_cons_self
  rw [hnone] at hfound
  cases hfound

end Shellflow
