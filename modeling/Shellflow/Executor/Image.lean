import Shellflow.Executor.Results
import Shellflow.Lib.ShellEval

/-! The image step: pull every image, compare its id before and after, and report which moved. -/
namespace Shellflow.Image
open Results

/-- What `image inspect --format` comes back with; one that fails prints nothing. -/
structure Inspection where
  status : Nat
  out : String
  silent : status ≠ 0 → Shell.trimNewlines out = ""

def Inspection.id (i : Inspection) : Option String :=
  if i.status = 0 ∧ Shell.trimNewlines i.out ≠ "" then some (Shell.trimNewlines i.out) else none

structure Pull where
  status : Nat
  out : String

/-- An image of the list with how the runtime answers for it. -/
structure Attempt where
  image : String
  old : Inspection
  pull : Pull
  new : Inspection

structure Target where
  podman : Bool
  docker : Bool
  mktemp : Bool

structure ImageRun where
  status : Nat
  out : List String
  report : List String

section Script

/-- `id=$(… || true)` -/
def captured (i : Inspection) : String := Shell.trimNewlines i.out

/-- The last three lines, with a status of its own. -/
def tail3 (input : String) : Pull :=
  let lines := Str.lines input
  ⟨0, "\n".intercalate (lines.drop (lines.length - 3))⟩

/-- `$RT pull "$img" 2>&1 | tail -3`: without `pipefail` the status is the one of `tail`. -/
def pullPipeline (pull : Pull) : Pull := tail3 pull.out

/-- One turn of the loop: the record it appends. -/
def pullImage (a : Attempt) : String :=
  let old := captured a.old
  if (pullPipeline a.pull).status ≠ 0 then record "FAIL" (a.image ++ " (pull failed)")
  else
    let new := captured a.new
    if new = "" then record "FAIL" (a.image ++ " (no digest after pull)")
    else if old ≠ "" ∧ old = new then record "SAME" a.image
    else record "MOVED" a.image

/-- The pruning prints one line and its failure is ignored. -/
def imageCommand (target : Target) (attempts : List Attempt) (prune : Bool) : ImageRun :=
  if !target.podman && !target.docker then
    ⟨1, ["no container runtime (podman, docker), skipping"], []⟩
  else if !target.mktemp then ⟨1, [], []⟩
  else
    let results := attempts.map pullImage
    let out := attempts.map (fun a => (pullPipeline a.pull).out) ++
      if prune then ["pruning dangling images"] else []
    ⟨exitStatus results, out, summary 5 results⟩

end Script

/-- A runtime and a temporary file were found. -/
def Target.Ready (target : Target) : Prop :=
  (target.podman = true ∨ target.docker = true) ∧ target.mktemp = true

def Attempt.Pulled (a : Attempt) : Prop := a.pull.status = 0

def Attempt.HasId (a : Attempt) : Prop := a.new.id.isSome = true

/-- The id after the pull differs from the one before, or there was none. -/
def Attempt.Moved (a : Attempt) : Prop := a.old.id ≠ a.new.id

instance (a : Attempt) : Decidable a.Moved := inferInstanceAs (Decidable (_ ≠ _))

/-- The step succeeds exactly when every image was pulled and has an id, and then reports each one
by how its id changed. -/
def FailsClosed (attempts : List Attempt) (run : ImageRun) : Prop :=
  (run.status = 0 ↔ ∀ a ∈ attempts, a.Pulled ∧ a.HasId) ∧
    (run.status = 0 → run.report = attempts.map fun a =>
      summaryLine 5 (if a.Moved then "MOVED" else "SAME") (shown a.image))

section Verdict
variable {a : Attempt} {attempts : List Attempt}

theorem captured_eq (i : Inspection) : captured i = i.id.getD "" := by
  unfold captured Inspection.id
  by_cases hout : Shell.trimNewlines i.out = ""
  · simp [hout]
  · have hstatus : i.status = 0 := by
      by_contra h
      exact hout (i.silent h)
    simp [hout, hstatus]

theorem id_ne_empty (i : Inspection) : i.id ≠ some "" := by
  unfold Inspection.id
  split
  · rename_i h
    exact fun hempty => h.2 (Option.some.inj hempty)
  · exact nofun

theorem captured_ne_empty {i : Inspection} : captured i ≠ "" ↔ i.id.isSome = true := by
  rw [captured_eq]
  cases hid : i.id with
  | none => simp
  | some id =>
    have hne : id ≠ "" := fun h => id_ne_empty i (by rw [hid, h])
    simp [hne]

/-- The status of the pull is not in the record. -/
theorem pullImage_of_hasId (h : a.HasId) :
    pullImage a = record (if a.Moved then "MOVED" else "SAME") a.image := by
  have hnew : captured a.new ≠ "" := captured_ne_empty.mpr h
  have hmoved : (captured a.old ≠ "" ∧ captured a.old = captured a.new) ↔ ¬ a.Moved := by
    unfold Attempt.Moved
    rw [captured_ne_empty, captured_eq, captured_eq]
    obtain ⟨new, hid⟩ := Option.isSome_iff_exists.mp h
    rw [hid, not_not]
    cases hold : a.old.id with
    | none => simp
    | some old => simp
  have htail : (pullPipeline a.pull).status = 0 := rfl
  rw [pullImage, if_neg (not_not.mpr htail), if_neg hnew]
  by_cases h : a.Moved
  · rw [if_neg (mt hmoved.mp (not_not.mpr h)), if_pos h]
  · rw [if_pos (hmoved.mpr h), if_neg h]

theorem pullImage_of_not_hasId (h : ¬ a.HasId) :
    pullImage a = record "FAIL" (a.image ++ " (no digest after pull)") := by
  have hnew : captured a.new = "" := by
    by_contra hne
    exact h (captured_ne_empty.mp hne)
  have htail : (pullPipeline a.pull).status = 0 := rfl
  rw [pullImage, if_neg (not_not.mpr htail), if_pos hnew]

theorem fails_iff : Str.startsWith (pullImage a) "FAIL" = false ↔ a.HasId := by
  by_cases h : a.HasId
  · rw [pullImage_of_hasId h]
    split <;> simp [h, Str.startsWith, record, List.isPrefixOf]
  · rw [pullImage_of_not_hasId h]
    simp [h, Str.startsWith, record]

/-- What the script tests is whether every image has an id. -/
theorem status_eq_zero_iff :
    exitStatus (attempts.map pullImage) = 0 ↔ ∀ a ∈ attempts, a.HasId := by
  simp only [exitStatus_eq_zero, List.forall_mem_map, fails_iff]

theorem summary_eq (h : ∀ a ∈ attempts, a.HasId) : summary 5 (attempts.map pullImage) =
    attempts.map fun a =>
      summaryLine 5 (if a.Moved then "MOVED" else "SAME") (shown a.image) := by
  have hrecords : attempts.map pullImage =
      attempts.map fun a => record (if a.Moved then "MOVED" else "SAME") a.image :=
    List.map_congr_left fun a ha => pullImage_of_hasId (h a ha)
  rw [hrecords, summary_map 5 attempts (fun a => if a.Moved then "MOVED" else "SAME") (·.image)]
  intro a _
  split <;> decide

end Verdict

section Command
variable {target : Target} (attempts : List Attempt) (prune : Bool)

theorem imageCommand_of_ready (h : target.Ready) :
    (imageCommand target attempts prune).status = exitStatus (attempts.map pullImage) ∧
      (imageCommand target attempts prune).report = summary 5 (attempts.map pullImage) := by
  obtain ⟨hruntime, hmktemp⟩ := h
  have hfound : (!target.podman && !target.docker) = false := by
    cases hruntime with
    | inl h => simp [h]
    | inr h => simp [h]
  simp [imageCommand, hfound, hmktemp]

theorem imageCommand_of_not_ready (h : ¬ target.Ready) :
    (imageCommand target attempts prune).status = 1 := by
  unfold imageCommand
  split
  · rfl
  · rename_i hfound
    have hruntime : target.podman = true ∨ target.docker = true := by
      cases hpodman : target.podman <;> cases hdocker : target.docker <;> simp_all
    have hmktemp : target.mktemp = false := by
      cases hmktemp : target.mktemp with
      | false => rfl
      | true => exact absurd ⟨hruntime, hmktemp⟩ h
    simp [hmktemp]

end Command

/-- The status of a pull is the one of the pipeline's last command, which never fails: the step
fails closed as long as every pull succeeds, or where an image is left without an id anyway. -/
theorem image_fails_closed_iff (target : Target) (attempts : List Attempt) (prune : Bool) :
    FailsClosed attempts (imageCommand target attempts prune) ↔
      (target.Ready → (∀ a ∈ attempts, a.Pulled) ∨ ∃ a ∈ attempts, ¬ a.HasId) ∧
        (¬ target.Ready → ∃ a ∈ attempts, ¬ (a.Pulled ∧ a.HasId)) := by
  by_cases hready : target.Ready
  · obtain ⟨hstatus, hreport⟩ := imageCommand_of_ready attempts prune hready
    rw [FailsClosed, hstatus, hreport, status_eq_zero_iff]
    constructor
    · intro h
      refine ⟨fun _ => ?_, fun hnot => absurd hready hnot⟩
      by_cases hids : ∀ a ∈ attempts, a.HasId
      · exact .inl fun a ha => (h.1.mp hids a ha).1
      · exact .inr (by simpa using hids)
    · intro h
      refine ⟨⟨fun hids a ha => ⟨?_, hids a ha⟩, fun hall a ha => (hall a ha).2⟩, summary_eq⟩
      cases h.1 hready with
      | inl hpulled => exact hpulled a ha
      | inr hmissing =>
        obtain ⟨b, hb, hid⟩ := hmissing
        exact absurd (hids b hb) hid
  · have hstatus := imageCommand_of_not_ready attempts prune hready
    rw [FailsClosed, hstatus]
    simp [hready]

def presentImage : Attempt where
  image := "web:1"
  old := ⟨0, "sha256:1\n", fun h => absurd rfl h⟩
  pull := ⟨1, "Error: registry unreachable"⟩
  new := ⟨0, "sha256:1\n", fun h => absurd rfl h⟩

/-- The pull fails, the image of the last deployment is still there, and the step succeeds. -/
theorem failed_pull_of_present_image :
    (imageCommand ⟨true, false, true⟩ [presentImage] false).status = 0 ∧
      ¬ FailsClosed [presentImage] (imageCommand ⟨true, false, true⟩ [presentImage] false) := by
  have hready : Target.Ready ⟨true, false, true⟩ := ⟨.inl rfl, rfl⟩
  have hid : presentImage.HasId := by
    unfold Attempt.HasId
    decide
  have hstatus : (imageCommand ⟨true, false, true⟩ [presentImage] false).status = 0 := by
    rw [(imageCommand_of_ready _ _ hready).1, status_eq_zero_iff]
    simpa using hid
  refine ⟨hstatus, fun h => ?_⟩
  have hpulled : presentImage.Pulled := (h.1.mp hstatus presentImage (List.mem_singleton_self _)).1
  exact absurd hpulled Nat.one_ne_zero

end Shellflow.Image
