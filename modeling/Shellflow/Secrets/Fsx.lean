import Mathlib.Data.Nat.Bitwise
import Mathlib.Logic.Function.Basic
import Shellflow.Text

/-! Atomic writes: the bytes are staged under a fresh name beside the destination and renamed or
linked into place. -/
namespace Shellflow.Fsx

inductive ErrorKind where
  | alreadyExists
  | notFound
  | isADirectory
  | other (message : String)
deriving DecidableEq, Repr

/-- `SecretsError::WriteFile`. -/
structure WriteError where
  path : String
  kind : ErrorKind
deriving DecidableEq, Repr

inductive Node where
  | file (bytes : List UInt8) (mode : Nat)
  | link (target : String)
  | directory
deriving DecidableEq, Repr

/-- What stands under each path. -/
abbrev FileSystem := String → Option Node

/-- `fs::remove_file`: it does not remove a directory. -/
def removeFile (fs : FileSystem) (path : String) : FileSystem :=
  if fs path = some .directory then fs else Function.update fs path none

def rename (fs : FileSystem) (source path : String) (fault : Option ErrorKind) :
    FileSystem × Option ErrorKind :=
  match fault with
  | some kind => (fs, some kind)
  | none =>
    if fs path = some .directory then (fs, some .isADirectory)
    else (Function.update (Function.update fs source none) path (fs source), none)

/-- A link is refused when anything stands at its path. -/
def hardLink (fs : FileSystem) (source path : String) (fault : Option ErrorKind) :
    FileSystem × Option ErrorKind :=
  match fault with
  | some kind => (fs, some kind)
  | none =>
    if fs path = none then (Function.update fs path (fs source), none)
    else (fs, some .alreadyExists)

/-- How the operations of one attempt fail; a write may have written some bytes. -/
structure StageFaults where
  create : Option ErrorKind
  write : Option (Nat × ErrorKind)
  flush : Option ErrorKind
  sync : Option ErrorKind
  permissions : Option ErrorKind

/-- The first operation that fails once the file has been created. -/
def StageFaults.afterCreate (f : StageFaults) : Option ErrorKind :=
  (f.write.map Prod.snd).or (f.flush.or (f.sync.or f.permissions))

/-- A call of `write_atomic` or `write_new_file`, with the process that makes it and the operations
that fail. -/
structure WriteCall where
  path : String
  bytes : List UInt8
  mode : Nat
  umask : Nat
  pid : Nat
  seed : Nat
  staging : Nat → StageFaults
  publish : Option ErrorKind
  openDir : Option ErrorKind
  syncDir : Option ErrorKind

/-- `Path::parent`, or the current directory. -/
def parentOrDot (path : String) : String :=
  if (pathParts path).dropLast ≠ [] then withParts path (pathParts path).dropLast
  else if pathParts path ≠ [] ∧ Str.startsWith path "/" then "/"
  else "."

/-- `Path::join` with a name. -/
def joinName (dir name : String) : String :=
  if dir = "" ∨ dir.toList.getLast? = some '/' then dir ++ name else dir ++ "/" ++ name

def nameAttempts : Nat := 10

namespace WriteCall
variable (c : WriteCall)

def base : String := (fileName c.path).getD "out"

def stagingName (attempt : Nat) : String :=
  "." ++ c.base ++ ".tmp." ++ toString c.pid ++ "." ++ toString (c.seed ^^^ attempt)

def temp (attempt : Nat) : String := joinName (parentOrDot c.path) (c.stagingName attempt)

/-- The file as it is created: the umask clears bits of the mode. -/
def created (bytes : List UInt8) : Node := .file bytes (c.mode ^^^ (c.mode &&& c.umask))

/-- The staging file that the attempt leaves when an operation behind its creation fails. -/
def leftover (f : StageFaults) : Node :=
  match f.write with
  | some (written, _) => c.created (c.bytes.take written)
  | none => c.created c.bytes

def stageFile (fs : FileSystem) (attempt : Nat) : FileSystem × Option WriteError :=
  let temp := c.temp attempt
  let f := c.staging attempt
  match f.create with
  | some kind => (fs, some ⟨temp, kind⟩)
  | none =>
    if fs temp ≠ none then (fs, some ⟨temp, .alreadyExists⟩)
    else
      match f.afterCreate with
      | some kind => (Function.update fs temp (some (c.leftover f)), some ⟨temp, kind⟩)
      | none => (Function.update fs temp (some (.file c.bytes c.mode)), none)

def isNameCollision (e : WriteError) : Bool := e.kind == .alreadyExists

/-- The attempts that are left, from this one on, and the last collision. -/
def stageFrom : Nat → Nat → Option WriteError → FileSystem → FileSystem × Except WriteError String
  | 0, _, last, fs => (fs, .error (last.getD ⟨c.path, .alreadyExists⟩))
  | left + 1, attempt, _, fs =>
    match c.stageFile fs attempt with
    | (fs, none) => (fs, .ok (c.temp attempt))
    | (fs, some e) =>
      if isNameCollision e then stageFrom left (attempt + 1) (some e) fs
      else (removeFile fs (c.temp attempt), .error e)

def stage (fs : FileSystem) : FileSystem × Except WriteError String :=
  c.stageFrom nameAttempts 0 none fs

def syncParent : Except WriteError Unit :=
  match c.openDir.or c.syncDir with
  | some kind => .error ⟨parentOrDot c.path, kind⟩
  | none => .ok ()

def writeAtomic (fs : FileSystem) : FileSystem × Except WriteError Unit :=
  match c.stage fs with
  | (fs, .error e) => (fs, .error e)
  | (fs, .ok temp) =>
    match rename fs temp c.path c.publish with
    | (fs, none) => (fs, c.syncParent)
    | (fs, some kind) => (removeFile fs temp, .error ⟨c.path, kind⟩)

def writeNewFile (fs : FileSystem) : FileSystem × Except WriteError Unit :=
  match c.stage fs with
  | (fs, .error e) => (fs, .error e)
  | (fs, .ok temp) =>
    match hardLink fs temp c.path c.publish with
    | (fs, none) => (removeFile fs temp, c.syncParent)
    | (fs, some kind) => (removeFile fs temp, .error ⟨c.path, kind⟩)

end WriteCall

section Names
variable (c : WriteCall)

theorem pathParts_parentOrDot (path : String) :
    pathParts (parentOrDot path) = (pathParts path).dropLast := by
  rw [parentOrDot]
  split
  · exact pathParts_withParts path fun part hpart => isPart_of_mem (List.mem_of_mem_dropLast hpart)
  next hempty =>
    rw [not_not.mp hempty]
    split
    · decide
    · decide

theorem pathParts_joinName (dir : String) {name : String} (hname : IsPart name) :
    pathParts (joinName dir name) = pathParts dir ++ [name] := by
  rw [joinName]
  split
  next hdir =>
    rcases hdir with rfl | hlast
    · rw [String.empty_append]
      exact pathParts_part hname
    · obtain ⟨front, rfl⟩ : ∃ front, dir = front ++ "/" := by
        refine ⟨String.ofList dir.toList.dropLast, ?_⟩
        rw [← String.toList_inj, String.toList_append, String.toList_ofList]
        exact (List.dropLast_append_getLast? _ hlast).symm
      have hempty : pathParts "" = [] := by decide
      have hfront := pathParts_concat front ""
      rw [String.append_empty, hempty, List.append_nil] at hfront
      rw [hfront]
      exact pathParts_below front hname
  next => exact pathParts_below dir hname

theorem slash_notMem_base : '/' ∉ c.base.toList := by
  rw [WriteCall.base]
  cases hname : fileName c.path with
  | none => decide
  | some name => exact (isPart_of_mem (List.mem_of_getLast? (Option.filter_eq_some_iff.mp hname).1)).2.2

theorem toList_stagingName (attempt : Nat) : (c.stagingName attempt).toList =
    '.' :: (c.base.toList ++ ".tmp.".toList ++ (toString c.pid).toList ++ ".".toList) ++
      (toString (c.seed ^^^ attempt)).toList := by
  simp only [WriteCall.stagingName, String.toList_append]
  rfl

theorem length_base_lt (attempt : Nat) :
    c.base.toList.length + 5 < (c.stagingName attempt).toList.length := by
  have hmark : ".tmp.".toList.length = 5 := rfl
  rw [toList_stagingName]
  simp only [List.length_append, List.length_cons, hmark]
  omega

theorem isPart_stagingName (attempt : Nat) : IsPart (c.stagingName attempt) := by
  have hdigit : ∀ n : Nat, '/' ∉ (toString n).toList := fun n h =>
    absurd (Str.isDigit_of_mem_toString h) (by decide)
  have hlen := length_base_lt c attempt
  refine ⟨?_, ?_, ?_⟩
  · intro h
    rw [h] at hlen
    exact absurd hlen (by simp)
  · intro h
    rw [h] at hlen
    have hdot : ".".toList.length = 1 := rfl
    omega
  · rw [toList_stagingName]
    simp only [List.cons_append, List.mem_cons, List.mem_append, slash_notMem_base, hdigit]
    decide

theorem pathParts_temp (attempt : Nat) :
    pathParts (c.temp attempt) = (pathParts c.path).dropLast ++ [c.stagingName attempt] := by
  rw [WriteCall.temp, pathParts_joinName _ (isPart_stagingName c attempt), pathParts_parentOrDot]

/-- The staging file is longer in its name than the destination. -/
theorem temp_ne_path (attempt : Nat) : c.temp attempt ≠ c.path := by
  intro h
  have hparts := pathParts_temp c attempt
  rw [h] at hparts
  have hlast : (pathParts c.path).getLast? = some (c.stagingName attempt) := by
    rw [hparts, List.getLast?_concat]
  have hlen := length_base_lt c attempt
  by_cases hup : c.stagingName attempt = ".."
  · rw [hup] at hlen
    have hdots : "..".toList.length = 2 := rfl
    omega
  · have hname : fileName c.path = some (c.stagingName attempt) :=
      Option.filter_eq_some_iff.mpr ⟨hlast, decide_eq_true hup⟩
    rw [WriteCall.base, hname, Option.getD_some] at hlen
    omega

theorem temp_inj {j k : Nat} (h : c.temp j = c.temp k) : j = k := by
  have hparts := congrArg pathParts h
  rw [pathParts_temp, pathParts_temp, List.append_cancel_left_eq] at hparts
  have hname := (List.cons.inj hparts).1
  have hdigits := congrArg String.toList hname
  rw [toList_stagingName, toList_stagingName, List.append_cancel_left_eq] at hdigits
  have hvalue := congrArg (Str.digitsValue 10 0) hdigits
  rw [Str.digitsValue_toString, Str.digitsValue_toString] at hvalue
  exact Nat.xor_right_injective (Option.some.inj hvalue)

end Names

namespace WriteCall
variable (c : WriteCall) (fs : FileSystem)

/-- The attempt finds its name taken, or is told so. -/
def Collides (attempt : Nat) : Prop :=
  match (c.staging attempt).create with
  | some kind => kind = .alreadyExists
  | none => fs (c.temp attempt) ≠ none

/-- The attempt neither fails to open a name that something else holds, other than by a collision,
nor fails with a collision once it has created its file. -/
def Clean (attempt : Nat) : Prop :=
  match (c.staging attempt).create with
  | some kind => kind = .alreadyExists ∨ fs (c.temp attempt) = none ∨
      fs (c.temp attempt) = some .directory
  | none => fs (c.temp attempt) ≠ none ∨
      (c.staging attempt).afterCreate ≠ some .alreadyExists

/-- The attempts that are made are clean; the next one is made after a collision only. -/
def CleanStaging : Prop :=
  ∀ attempt < nameAttempts, (∀ earlier < attempt, c.Collides fs earlier) → c.Clean fs attempt

/-- The destination holds what it held or the new file, the new one on success, and nothing else
has changed. -/
structure Written (out : FileSystem × Except WriteError Unit) : Prop where
  content : out.1 c.path = fs c.path ∨ out.1 c.path = some (.file c.bytes c.mode)
  done : out.2 = .ok () → out.1 c.path = some (.file c.bytes c.mode)
  others : ∀ path, path ≠ c.path → out.1 path = fs path

end WriteCall

section Staging
variable {c : WriteCall} {fs : FileSystem} {k : Nat}

theorem removeFile_of_ne {path q : String} (h : q ≠ path) : removeFile fs path q = fs q := by
  rw [removeFile]
  split
  · rfl
  · exact Function.update_of_ne h ..

/-- A file that has just been created is removed again. -/
theorem removeFile_update {path : String} {node : Node} (hfree : fs path = none)
    (hnode : node ≠ .directory) :
    removeFile (Function.update fs path (some node)) path = fs := by
  have hsome : Function.update fs path (some node) path ≠ some .directory := by
    rw [Function.update_self]
    exact fun h => hnode (Option.some.inj h)
  rw [removeFile, if_neg hsome, Function.update_idem, ← hfree, Function.update_eq_self]

theorem stageFile_of_collides (h : c.Collides fs k) :
    c.stageFile fs k = (fs, some ⟨c.temp k, .alreadyExists⟩) := by
  rw [WriteCall.Collides] at h
  rw [WriteCall.stageFile]
  cases hcreate : (c.staging k).create with
  | some kind =>
    rw [hcreate] at h
    rw [show kind = .alreadyExists from h]
  | none =>
    rw [hcreate] at h
    exact if_pos h

/-- What an attempt does that is no collision. -/
inductive Attempted (c : WriteCall) (fs : FileSystem) (k : Nat) :
    FileSystem × Option WriteError → Prop
  | refused (kind : ErrorKind) (hcreate : (c.staging k).create = some kind)
      (hkind : kind ≠ .alreadyExists) : Attempted c fs k (fs, some ⟨c.temp k, kind⟩)
  | broken (kind : ErrorKind) (hcreate : (c.staging k).create = none)
      (hfree : fs (c.temp k) = none) (hafter : (c.staging k).afterCreate = some kind) :
      Attempted c fs k (Function.update fs (c.temp k) (some (c.leftover (c.staging k))),
        some ⟨c.temp k, kind⟩)
  | staged (hcreate : (c.staging k).create = none) (hfree : fs (c.temp k) = none)
      (hafter : (c.staging k).afterCreate = none) :
      Attempted c fs k (Function.update fs (c.temp k) (some (.file c.bytes c.mode)), none)

theorem attempted_of_not_collides (h : ¬ c.Collides fs k) : Attempted c fs k (c.stageFile fs k) := by
  rw [WriteCall.Collides] at h
  rw [WriteCall.stageFile]
  cases hcreate : (c.staging k).create with
  | some kind =>
    rw [hcreate] at h
    exact .refused kind hcreate h
  | none =>
    rw [hcreate] at h
    have hfree : fs (c.temp k) = none := not_not.mp h
    dsimp only
    rw [if_neg h]
    cases hafter : (c.staging k).afterCreate with
    | some kind => exact .broken kind hcreate hfree hafter
    | none => exact .staged hcreate hfree hafter

theorem leftover_ne_directory (f : StageFaults) : c.leftover f ≠ .directory := by
  rw [WriteCall.leftover]
  cases f.write <;> exact Node.noConfusion

end Staging

section Attempts
variable {c : WriteCall} {fs : FileSystem}

theorem stageFrom_collides {m : Nat} (left : Nat) (last : Option WriteError)
    (h : c.Collides fs m) : c.stageFrom (left + 1) m last fs =
      c.stageFrom left (m + 1) (some ⟨c.temp m, .alreadyExists⟩) fs := by
  rw [WriteCall.stageFrom, stageFile_of_collides h]
  rfl

/-- Clean attempts leave nothing but the staged file. -/
theorem stageFrom_clean {left m : Nat} {last : Option WriteError}
    (hclean : ∀ k, m ≤ k → k < m + left → (∀ j, m ≤ j → j < k → c.Collides fs j) → c.Clean fs k) :
    (∃ e, c.stageFrom left m last fs = (fs, .error e)) ∨
      ∃ k, fs (c.temp k) = none ∧ c.stageFrom left m last fs =
        (Function.update fs (c.temp k) (some (.file c.bytes c.mode)), .ok (c.temp k)) := by
  induction left generalizing m last with
  | zero => exact .inl ⟨_, rfl⟩
  | succ left ih =>
    by_cases hcollides : c.Collides fs m
    · rw [stageFrom_collides left last hcollides]
      refine ih fun k hk hlt hearlier => hclean k (by omega) (by omega) fun j hj hjk => ?_
      by_cases hjm : j = m
      · rw [hjm]
        exact hcollides
      · exact hearlier j (by omega) hjk
    · have hm := hclean m (Nat.le_refl m) (by omega) fun j hj hjm => by omega
      have hattempt := attempted_of_not_collides hcollides
      rw [WriteCall.stageFrom]
      generalize c.stageFile fs m = out at hattempt
      cases hattempt with
      | refused kind hcreate hkind =>
        have hnode : fs (c.temp m) = none ∨ fs (c.temp m) = some .directory := by
          rw [WriteCall.Clean, hcreate] at hm
          exact hm.resolve_left hkind
        have hremove : removeFile fs (c.temp m) = fs := by
          rw [removeFile]
          rcases hnode with hnode | hnode
          · rw [if_neg (by rw [hnode]; nofun), ← hnode, Function.update_eq_self]
          · rw [if_pos hnode]
        refine .inl ⟨⟨c.temp m, kind⟩, ?_⟩
        dsimp only
        rw [if_neg (by simpa [WriteCall.isNameCollision] using hkind), hremove]
      | broken kind hcreate hfree hafter =>
        have hkind : kind ≠ .alreadyExists := by
          rw [WriteCall.Clean, hcreate, hafter] at hm
          intro heq
          rcases hm with hm | hm
          · exact hm hfree
          · exact hm (congrArg some heq)
        refine .inl ⟨⟨c.temp m, kind⟩, ?_⟩
        dsimp only
        rw [if_neg (by simpa [WriteCall.isNameCollision] using hkind),
          removeFile_update hfree (leftover_ne_directory _)]
      | staged hcreate hfree hafter => exact .inr ⟨m, hfree, rfl⟩

/-- The attempts that are left touch their own names only. -/
theorem stageFrom_frame {left m : Nat} {last : Option WriteError} {q : String}
    (hq : ∀ k, m ≤ k → q ≠ c.temp k) : (c.stageFrom left m last fs).1 q = fs q ∧
      ∀ t, (c.stageFrom left m last fs).2 = .ok t → q ≠ t := by
  induction left generalizing m last fs with
  | zero => exact ⟨rfl, nofun⟩
  | succ left ih =>
    have hm := hq m (Nat.le_refl m)
    have hlater : ∀ k, m + 1 ≤ k → q ≠ c.temp k := fun k hk => hq k (by omega)
    by_cases hcollides : c.Collides fs m
    · rw [stageFrom_collides left last hcollides]
      exact ih hlater
    · have hattempt := attempted_of_not_collides hcollides
      rw [WriteCall.stageFrom]
      generalize c.stageFile fs m = out at hattempt
      cases hattempt with
      | refused kind =>
        dsimp only
        split
        · exact ih hlater
        · dsimp only
          exact ⟨removeFile_of_ne hm, nofun⟩
      | broken kind =>
        dsimp only
        split
        · obtain ⟨hframe, hok⟩ := ih hlater
          exact ⟨hframe.trans (Function.update_of_ne hm ..), hok⟩
        · dsimp only
          exact ⟨(removeFile_of_ne hm).trans (Function.update_of_ne hm ..), nofun⟩
      | staged =>
        dsimp only
        refine ⟨Function.update_of_ne hm .., fun t ht => ?_⟩
        rw [← Except.ok.inj ht]
        exact hm

/-- An attempt that is not clean changes what its name holds, for good. -/
theorem stageFrom_dirty {left m k : Nat} {last : Option WriteError} (hm : m ≤ k)
    (hk : k < m + left) (hearlier : ∀ j, m ≤ j → j < k → c.Collides fs j)
    (hdirty : ¬ c.Clean fs k) : (c.stageFrom left m last fs).1 (c.temp k) ≠ fs (c.temp k) ∧
      ∀ t, (c.stageFrom left m last fs).2 = .ok t → c.temp k ≠ t := by
  induction left generalizing m last with
  | zero => omega
  | succ left ih =>
    by_cases hmk : m = k
    · subst hmk
      have hcollides : ¬ c.Collides fs m := by
        intro hcollides
        rw [WriteCall.Collides] at hcollides
        rw [WriteCall.Clean] at hdirty
        cases hcreate : (c.staging m).create with
        | some kind =>
          rw [hcreate] at hcollides hdirty
          exact hdirty (.inl hcollides)
        | none =>
          rw [hcreate] at hcollides hdirty
          exact hdirty (.inl hcollides)
      have hattempt := attempted_of_not_collides hcollides
      rw [WriteCall.stageFrom]
      generalize c.stageFile fs m = out at hattempt
      rw [WriteCall.Clean] at hdirty
      cases hattempt with
      | refused kind hcreate hkind =>
        rw [hcreate] at hdirty
        obtain ⟨-, hsome, hfile⟩ : _ ∧ fs (c.temp m) ≠ none ∧ _ := by
          simpa only [not_or] using hdirty
        dsimp only
        rw [if_neg (by simpa [WriteCall.isNameCollision] using hkind), removeFile, if_neg hfile]
        refine ⟨?_, nofun⟩
        dsimp only
        rw [Function.update_self]
        exact hsome.symm
      | broken kind hcreate hfree hafter =>
        rw [hcreate, hafter] at hdirty
        have hkind : kind = .alreadyExists := by
          by_contra hne
          exact hdirty (.inr fun h => hne (Option.some.inj h))
        dsimp only
        rw [if_pos (by rw [hkind]; rfl)]
        have hlater : ∀ k, m + 1 ≤ k → c.temp m ≠ c.temp k := fun k hk heq =>
          absurd (temp_inj c heq) (by omega)
        obtain ⟨hframe, hok⟩ := @stageFrom_frame c
          (Function.update fs (c.temp m) (some (c.leftover (c.staging m)))) left (m + 1)
          (some ⟨c.temp m, kind⟩) (c.temp m) hlater
        refine ⟨?_, hok⟩
        rw [hframe, Function.update_self, hfree]
        exact Option.some_ne_none _
      | staged hcreate hfree hafter =>
        rw [hcreate, hafter] at hdirty
        exact absurd (.inr nofun) hdirty
    · rw [stageFrom_collides left last (hearlier m (Nat.le_refl m) (by omega))]
      exact ih (by omega) (by omega) fun j hj hjk => hearlier j (by omega) hjk

end Attempts

section Publish
variable {c : WriteCall} {fs : FileSystem}

theorem stage_clean (hclean : c.CleanStaging fs) : (∃ e, c.stage fs = (fs, .error e)) ∨
    ∃ k, fs (c.temp k) = none ∧ c.stage fs =
      (Function.update fs (c.temp k) (some (.file c.bytes c.mode)), .ok (c.temp k)) :=
  stageFrom_clean fun k _ hlt hearlier =>
    hclean k (by omega) fun j hj => hearlier j (Nat.zero_le j) hj

theorem stage_dirty (hdirty : ¬ c.CleanStaging fs) : ∃ k, (c.stage fs).1 (c.temp k) ≠ fs (c.temp k) ∧
    ∀ t, (c.stage fs).2 = .ok t → c.temp k ≠ t := by
  simp only [WriteCall.CleanStaging, not_forall] at hdirty
  obtain ⟨k, hlt, hearlier, hk⟩ := hdirty
  exact ⟨k, stageFrom_dirty (Nat.zero_le k) (by omega) (fun j _ hj => hearlier j hj) hk⟩

/-- A failed or refused rename leaves everything, and a rename moves the file. -/
theorem rename_cases (fs : FileSystem) (source path : String) (fault : Option ErrorKind) :
    (∃ kind, rename fs source path fault = (fs, some kind)) ∨ rename fs source path fault =
      (Function.update (Function.update fs source none) path (fs source), none) := by
  cases fault with
  | some kind => exact .inl ⟨kind, rfl⟩
  | none =>
    rw [rename]
    split
    · exact .inl ⟨_, rfl⟩
    · exact .inr rfl

theorem hardLink_cases (fs : FileSystem) (source path : String) (fault : Option ErrorKind) :
    (∃ kind, hardLink fs source path fault = (fs, some kind)) ∨ (fs path = none ∧
      hardLink fs source path fault = (Function.update fs path (fs source), none)) := by
  cases fault with
  | some kind => exact .inl ⟨kind, rfl⟩
  | none =>
    rw [hardLink]
    split
    next hfree => exact .inr ⟨hfree, rfl⟩
    next => exact .inl ⟨_, rfl⟩

/-- Only what stands under the staging names decides whether the attempts are clean. -/
theorem cleanStaging_congr {fs' : FileSystem} (h : ∀ k, fs' (c.temp k) = fs (c.temp k)) :
    c.CleanStaging fs' ↔ c.CleanStaging fs := by
  simp only [WriteCall.CleanStaging, WriteCall.Collides, WriteCall.Clean, h]

/-- With clean attempts an atomic write changes the destination or nothing. -/
theorem writeAtomic_clean (hclean : c.CleanStaging fs) :
    (∃ e, c.writeAtomic fs = (fs, .error e)) ∨ c.writeAtomic fs =
      (Function.update fs c.path (some (.file c.bytes c.mode)), c.syncParent) := by
  rw [WriteCall.writeAtomic]
  rcases stage_clean hclean with ⟨e, hstage⟩ | ⟨k, hfree, hstage⟩
  · rw [hstage]
    exact .inl ⟨e, rfl⟩
  · rw [hstage]
    dsimp only
    rcases rename_cases (Function.update fs (c.temp k) (some (.file c.bytes c.mode))) (c.temp k)
      c.path c.publish with ⟨kind, hrename⟩ | hrename
    · rw [hrename]
      dsimp only
      rw [removeFile_update hfree Node.noConfusion]
      exact .inl ⟨_, rfl⟩
    · rw [hrename]
      dsimp only
      rw [Function.update_self, Function.update_idem, ← hfree, Function.update_eq_self]
      exact .inr rfl

theorem writeNewFile_clean (hclean : c.CleanStaging fs) :
    (∃ e, c.writeNewFile fs = (fs, .error e)) ∨ (fs c.path = none ∧ c.writeNewFile fs =
      (Function.update fs c.path (some (.file c.bytes c.mode)), c.syncParent)) := by
  rw [WriteCall.writeNewFile]
  rcases stage_clean hclean with ⟨e, hstage⟩ | ⟨k, hfree, hstage⟩
  · rw [hstage]
    exact .inl ⟨e, rfl⟩
  · have hne := temp_ne_path c k
    rw [hstage]
    dsimp only
    rcases hardLink_cases (Function.update fs (c.temp k) (some (.file c.bytes c.mode))) (c.temp k)
      c.path c.publish with ⟨kind, hlink⟩ | ⟨hnew, hlink⟩
    · rw [hlink]
      dsimp only
      rw [removeFile_update hfree Node.noConfusion]
      exact .inl ⟨_, rfl⟩
    · rw [Function.update_of_ne hne.symm] at hnew
      rw [hlink]
      dsimp only
      have hfree' : Function.update fs c.path (some (.file c.bytes c.mode)) (c.temp k) = none := by
        rw [Function.update_of_ne hne, hfree]
      rw [Function.update_self, Function.update_comm hne, removeFile_update hfree' Node.noConfusion]
      exact .inr ⟨hnew, rfl⟩

theorem written_of_clean {out : FileSystem × Except WriteError Unit}
    (h : (∃ e, out = (fs, .error e)) ∨
      out = (Function.update fs c.path (some (.file c.bytes c.mode)), c.syncParent)) :
    c.Written fs out := by
  rcases h with ⟨e, rfl⟩ | rfl
  · exact ⟨.inl rfl, nofun, fun path _ => rfl⟩
  · exact ⟨.inr (Function.update_self ..), fun _ => Function.update_self ..,
      fun path hpath => Function.update_of_ne hpath ..⟩

/-- What an attempt that is not clean changes, the rest of the call leaves so. -/
theorem writeAtomic_changes (hdirty : ¬ c.CleanStaging fs) :
    ∃ k, (c.writeAtomic fs).1 (c.temp k) ≠ fs (c.temp k) := by
  obtain ⟨k, hchanged, hok⟩ := stage_dirty hdirty
  have hne := temp_ne_path c k
  refine ⟨k, fun hsame => hchanged (Eq.trans ?_ hsame)⟩
  rw [WriteCall.writeAtomic]
  generalize c.stage fs = staged at hok
  obtain ⟨fs', result⟩ := staged
  cases result with
  | error e => rfl
  | ok t =>
    have ht := hok t rfl
    dsimp only
    rcases rename_cases fs' t c.path c.publish with ⟨kind, hrename⟩ | hrename
    · rw [hrename]
      exact (removeFile_of_ne ht).symm
    · rw [hrename]
      dsimp only
      rw [Function.update_of_ne hne, Function.update_of_ne ht]

theorem writeAtomic_dirty (hdirty : ¬ c.CleanStaging fs) : ¬ c.Written fs (c.writeAtomic fs) := by
  intro hwritten
  obtain ⟨k, hchanged⟩ := writeAtomic_changes hdirty
  exact hchanged (hwritten.others (c.temp k) (temp_ne_path c k))

theorem writeNewFile_dirty (hdirty : ¬ c.CleanStaging fs) : ¬ c.Written fs (c.writeNewFile fs) := by
  intro hwritten
  obtain ⟨k, hchanged, hok⟩ := stage_dirty hdirty
  have hne := temp_ne_path c k
  refine hchanged (Eq.trans ?_ (hwritten.others (c.temp k) hne))
  rw [WriteCall.writeNewFile]
  generalize c.stage fs = staged at hok
  obtain ⟨fs', result⟩ := staged
  cases result with
  | error e => rfl
  | ok t =>
    have ht := hok t rfl
    dsimp only
    rcases hardLink_cases fs' t c.path c.publish with ⟨kind, hlink⟩ | ⟨-, hlink⟩
    · rw [hlink]
      exact (removeFile_of_ne ht).symm
    · rw [hlink]
      dsimp only
      rw [removeFile_of_ne ht, Function.update_of_ne hne]

end Publish

/-- Both writers keep their promise exactly when the attempts that they make are clean. -/
theorem written_iff (c : WriteCall) (fs : FileSystem) :
    (c.Written fs (c.writeAtomic fs) ↔ c.CleanStaging fs) ∧
    ((c.Written fs (c.writeNewFile fs) ∧
        (fs c.path ≠ none → (c.writeNewFile fs).1 c.path = fs c.path)) ↔ c.CleanStaging fs) := by
  refine ⟨⟨fun h => ?_, fun h => written_of_clean (writeAtomic_clean h)⟩,
    fun h => ?_, fun h => ⟨?_, fun hold => ?_⟩⟩
  · by_contra hdirty
    exact writeAtomic_dirty hdirty h
  · by_contra hdirty
    exact writeNewFile_dirty hdirty h.1
  · exact written_of_clean ((writeNewFile_clean h).imp_right And.right)
  · rcases writeNewFile_clean h with ⟨e, heq⟩ | ⟨hnew, -⟩
    · rw [heq]
    · exact absurd hnew hold

/-- A process that has no file descriptor left. -/
def exhaustedCall : WriteCall where
  path := "/d/x.age"
  bytes := [1]
  mode := 384
  umask := 0
  pid := 7
  seed := 0
  staging _ := ⟨some (.other "too many open files"), none, none, none, none⟩
  publish := none
  openDir := none
  syncDir := none

/-- Someone else's file stands under the first staging name. -/
def occupied : FileSystem := fun path =>
  if path = "/d/.x.age.tmp.7.0" then some (.file [9] 420) else none

theorem exhaustedCall_removes_a_foreign_file :
    ¬ ∀ (c : WriteCall) (fs : FileSystem), c.Written fs (c.writeAtomic fs) ∧
      c.Written fs (c.writeNewFile fs) ∧
      (fs c.path ≠ none → (c.writeNewFile fs).1 c.path = fs c.path) := by
  intro hall
  have hkept := (hall exhaustedCall occupied).1.others (exhaustedCall.temp 0) (temp_ne_path _ 0)
  have hgone : (exhaustedCall.writeAtomic occupied).1 (exhaustedCall.temp 0) = none := by
    decide +kernel
  have hheld : occupied (exhaustedCall.temp 0) = some (.file [9] 420) := by decide +kernel
  rw [hgone, hheld] at hkept
  cases hkept

end Shellflow.Fsx
