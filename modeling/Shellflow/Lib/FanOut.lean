import Mathlib
import Shellflow.Lib.Runs

/-! Tasks that are spawned together and share a number of slots: each waits for a slot, runs, gives
the slot back, and is collected in the order in which the tasks end. -/
namespace FanOut
universe u v w
variable {α : Type u} {β : Type v}

/-- A running task remembers whether it started after the interrupt. -/
inductive Task (α : Type u) (β : Type v) where
  | waiting (job : α)
  | running (job : α) (late : Bool)
  | ended (result : β)
  | collected (result : β)
deriving DecidableEq

/-- The tasks, the slots that are free (`none`: there is no limit), and what was collected. -/
structure Fan (α : Type u) (β : Type v) where
  tasks : List (Task α β)
  slots : Option Nat
  interrupted : Bool
  results : List β
deriving DecidableEq

inductive Act (β : Type v) where
  | acquire (i : Nat)
  | finish (i : Nat) (result : β)
  | collect (i : Nat)
  | interrupt

def start (slots : Option Nat) (jobs : List α) : Fan α β := ⟨jobs.map .waiting, slots, false, []⟩

/-- One slot fewer. -/
def takeSlot : Option Nat → Option (Option Nat)
  | none => some none
  | some 0 => none
  | some (n + 1) => some (some n)

/-- `ends job late now result`: the job may end so, where it started late, and the interrupt has
come by now. -/
def step (ends : α → Bool → Bool → β → Bool) (f : Fan α β) : Act β → Option (Fan α β)
  | .acquire i =>
    match f.tasks[i]?, takeSlot f.slots with
    | some (.waiting job), some slots =>
      some { f with tasks := f.tasks.set i (.running job f.interrupted), slots := slots }
    | _, _ => none
  | .finish i result =>
    match f.tasks[i]? with
    | some (.running job late) =>
      if ends job late f.interrupted result then
        some { f with tasks := f.tasks.set i (.ended result), slots := f.slots.map (· + 1) }
      else none
    | _ => none
  | .collect i =>
    match f.tasks[i]? with
    | some (.ended result) =>
      some { f with tasks := f.tasks.set i (.collected result), results := f.results ++ [result] }
    | _ => none
  | .interrupt => if f.interrupted then none else some { f with interrupted := true }

namespace Task

def isRunning : Task α β → Bool
  | .running _ _ => true
  | _ => false

def result? : Task α β → Option β
  | .collected result => some result
  | _ => none

/-- The moves a task has left. -/
def moves : Task α β → Nat
  | .waiting _ => 3
  | .running _ _ => 2
  | .ended _ => 1
  | .collected _ => 0

end Task

def Fan.running (f : Fan α β) : Nat := f.tasks.countP Task.isRunning

def Fan.Finished (f : Fan α β) : Prop := ∀ t ∈ f.tasks, t.result?.isSome

instance (f : Fan α β) : Decidable f.Finished :=
  inferInstanceAs (Decidable (∀ t ∈ f.tasks, t.result?.isSome))

def Fan.moves (f : Fan α β) : Nat := (f.tasks.map Task.moves).sum

section Steps
variable {ends : α → Bool → Bool → β → Bool} {f f' : Fan α β} {a : Act β}

/-- What one step does. -/
inductive Effect (ends : α → Bool → Bool → β → Bool) (f : Fan α β) : Act β → Fan α β → Prop
  | acquire {front back : List (Task α β)} {job : α} {slots : Option Nat}
      (h : f.tasks = front ++ .waiting job :: back) (hslot : takeSlot f.slots = some slots) :
      Effect ends f (.acquire front.length)
        { f with tasks := front ++ .running job f.interrupted :: back, slots := slots }
  | finish {front back : List (Task α β)} {job : α} {late : Bool} {result : β}
      (h : f.tasks = front ++ .running job late :: back)
      (hends : ends job late f.interrupted result = true) :
      Effect ends f (.finish front.length result)
        { f with tasks := front ++ .ended result :: back, slots := f.slots.map (· + 1) }
  | collect {front back : List (Task α β)} {result : β}
      (h : f.tasks = front ++ .ended result :: back) :
      Effect ends f (.collect front.length)
        { f with tasks := front ++ .collected result :: back, results := f.results ++ [result] }
  | interrupt (h : f.interrupted = false) : Effect ends f .interrupt { f with interrupted := true }

theorem split_of_getElem? {l : List (Task α β)} {i : Nat} {t : Task α β} (h : l[i]? = some t) :
    ∃ front back, i = front.length ∧ l = front ++ t :: back ∧
      ∀ t', l.set i t' = front ++ t' :: back := by
  obtain ⟨hi, hget⟩ := List.getElem?_eq_some_iff.mp h
  refine ⟨l.take i, l.drop (i + 1), (List.length_take_of_le hi.le).symm, ?_, fun t' => ?_⟩
  · rw [← hget, List.getElem_cons_drop, List.take_append_drop]
  · exact List.set_eq_take_append_cons_drop.trans (if_pos hi)

theorem effect_of_step (h : step ends f a = some f') : Effect ends f a f' := by
  cases a with
  | acquire i =>
    simp only [step] at h
    split at h
    next job slots htask hslot =>
      obtain ⟨front, back, rfl, htasks, hset⟩ := split_of_getElem? htask
      rw [← Option.some.inj h, hset]
      exact .acquire htasks hslot
    next => cases h
  | finish i result =>
    simp only [step] at h
    split at h
    next job late htask =>
      obtain ⟨hends, h⟩ := Option.ite_none_right_eq_some.mp h
      obtain ⟨front, back, rfl, htasks, hset⟩ := split_of_getElem? htask
      rw [← Option.some.inj h, hset]
      exact .finish htasks hends
    next => cases h
  | collect i =>
    simp only [step] at h
    split at h
    next result htask =>
      obtain ⟨front, back, rfl, htasks, hset⟩ := split_of_getElem? htask
      rw [← Option.some.inj h, hset]
      exact .collect htasks
    next => cases h
  | interrupt =>
    simp only [step] at h
    obtain ⟨hfresh, h⟩ := Option.ite_none_left_eq_some.mp h
    rw [← Option.some.inj h]
    exact .interrupt (Bool.eq_false_of_not_eq_true hfresh)

theorem getElem?_split (front back : List (Task α β)) (t : Task α β) :
    (front ++ t :: back)[front.length]? = some t := by
  rw [List.getElem?_append_right le_rfl, Nat.sub_self, List.getElem?_cons_zero]

theorem set_split (front back : List (Task α β)) (t t' : Task α β) :
    (front ++ t :: back).set front.length t' = front ++ t' :: back := by
  rw [List.set_append_right _ _ le_rfl, Nat.sub_self, List.set_cons_zero]

theorem step_of_effect (h : Effect ends f a f') : step ends f a = some f' := by
  cases h with
  | acquire h hslot =>
    simp only [step, h, getElem?_split, hslot, set_split]
  | finish h hends =>
    simp only [step, h, getElem?_split, hends, set_split, if_true]
  | collect h =>
    simp only [step, h, getElem?_split, set_split]
  | interrupt h =>
    simp only [step, h, Bool.false_eq_true, if_false]

/-- The step is this effect, no more and no less. -/
theorem step_iff : step ends f a = some f' ↔ Effect ends f a f' := ⟨effect_of_step, step_of_effect⟩

end Steps

section Invariants
variable {ends : α → Bool → Bool → β → Bool} {f f' : Fan α β} {a : Act β} {slots : Option Nat}
  {jobs : List α}

/-- The slots are free or held by a running task. -/
def Fan.Holds (slots : Option Nat) (f : Fan α β) : Prop := slots = f.slots.map (· + f.running)

theorem takeSlot_eq {slots slots' : Option Nat} (h : takeSlot slots = some slots') :
    slots = slots'.map (· + 1) := by
  cases slots with
  | none =>
    cases h
    rfl
  | some n =>
    cases n with
    | zero => cases h
    | succ n =>
      cases h
      rfl

theorem holds_start : (start slots jobs : Fan α β).Holds slots := by
  have hnone : (start slots jobs : Fan α β).running = 0 := by
    simp [Fan.running, start, List.countP_eq_zero, Task.isRunning]
  rw [Fan.Holds, hnone]
  exact Option.map_id'.symm

theorem holds_step (h : f.Holds slots) (hstep : step ends f a = some f') : f'.Holds slots := by
  rw [Fan.Holds, Fan.running] at h ⊢
  cases effect_of_step hstep with
  | acquire htasks hslot =>
    rw [h, htasks, takeSlot_eq hslot, Option.map_map]
    congr 1
    funext n
    simp [List.countP_cons, Task.isRunning]
    omega
  | finish htasks hends =>
    rw [h, htasks, Option.map_map]
    congr 1
    funext n
    simp [List.countP_cons, Task.isRunning]
    omega
  | collect htasks =>
    rw [h, htasks]
    simp [Task.isRunning]
  | interrupt => exact h

/-- One element of the list is another one now. -/
theorem forall₂_replace {γ : Type w} {R : γ → Task α β → Prop} {l : List γ}
    {front back : List (Task α β)} {t t' : Task α β} (h : List.Forall₂ R l (front ++ t :: back))
    (ht : ∀ c, R c t → R c t') : List.Forall₂ R l (front ++ t' :: back) := by
  induction front generalizing l with
  | nil =>
    cases h with
    | cons hc hl => exact .cons (ht _ hc) hl
  | cons s front ih =>
    cases h with
    | cons hc hl => exact .cons hc (ih hl)

/-- The ways a job can end until now. -/
def Came (ends : α → Bool → Bool → β → Bool) (interrupted : Bool) (job : α) (result : β) : Prop :=
  ∃ late now, (late = true → now = true) ∧ (now = true → interrupted = true) ∧
    ends job late now result = true

theorem Came.mono {job : α} {result : β} {interrupted : Bool}
    (h : Came ends interrupted job result) : Came ends true job result := by
  obtain ⟨late, now, hlate, -, hends⟩ := h
  exact ⟨late, now, hlate, fun _ => rfl, hends⟩

/-- What the task at a job's place says about the job. -/
def Stands (ends : α → Bool → Bool → β → Bool) (interrupted : Bool) (job : α) : Task α β → Prop
  | .waiting job' => job' = job
  | .running job' late => job' = job ∧ (late = true → interrupted = true)
  | .ended result => Came ends interrupted job result
  | .collected result => Came ends interrupted job result

theorem Stands.mono {interrupted : Bool} {job : α} {t : Task α β}
    (h : Stands ends interrupted job t) : Stands ends true job t := by
  cases t with
  | waiting => exact h
  | running => exact ⟨h.1, fun _ => rfl⟩
  | ended => exact Came.mono h
  | collected => exact Came.mono h

/-- Every job has its task, and what was collected are the results of the collected tasks. -/
structure Fan.Accounts (ends : α → Bool → Bool → β → Bool) (jobs : List α) (f : Fan α β) : Prop where
  stands : List.Forall₂ (Stands ends f.interrupted) jobs f.tasks
  results : f.results.Perm (f.tasks.filterMap Task.result?)

theorem accounts_start : (start slots jobs : Fan α β).Accounts ends jobs := by
  constructor
  · exact List.forall₂_map_right_iff.mpr (List.forall₂_same.mpr fun _ _ => rfl)
  · have hnone : (jobs.map (@Task.waiting α β)).filterMap Task.result? = [] := by
      simp [List.filterMap_eq_nil_iff, Task.result?]
    rw [start, hnone]

theorem accounts_step (h : f.Accounts ends jobs) (hstep : step ends f a = some f') :
    f'.Accounts ends jobs := by
  obtain ⟨hstands, hresults⟩ := h
  cases effect_of_step hstep with
  | acquire htasks hslot =>
    rw [htasks] at hstands hresults
    refine ⟨forall₂_replace hstands fun job hjob => ⟨hjob, id⟩, ?_⟩
    simpa [List.filterMap_cons, Task.result?] using hresults
  | @finish front back job late result htasks hends =>
    rw [htasks] at hstands hresults
    refine ⟨forall₂_replace hstands fun job' hjob => ?_, by simpa [List.filterMap_cons, Task.result?] using hresults⟩
    exact ⟨late, f.interrupted, hjob.2, id, hjob.1 ▸ hends⟩
  | collect htasks =>
    rw [htasks] at hstands hresults
    refine ⟨forall₂_replace hstands fun job hjob => hjob, ?_⟩
    simp only [List.filterMap_append, List.filterMap_cons, Task.result?] at hresults ⊢
    refine (hresults.append_right _).trans ?_
    rw [List.append_assoc]
    exact (List.perm_append_singleton _ _).append_left _
  | interrupt => exact ⟨hstands.imp fun _ _ => Stands.mono, hresults⟩

/-- Each move is one of those that were left; only the interrupt is one more. -/
theorem moves_step (hstep : step ends f a = some f') :
    f.moves + f'.interrupted.toNat = f'.moves + f.interrupted.toNat + 1 := by
  rw [Fan.moves, Fan.moves]
  cases effect_of_step hstep with
  | acquire htasks | finish htasks | collect htasks =>
    simp [htasks, Task.moves]
    omega
  | interrupt hfresh => simp [hfresh]

end Invariants

section Runs
variable {ends : α → Bool → Bool → β → Bool} {f f' : Fan α β} {acts : List (Act β)}
  {slots : Option Nat} {jobs : List α}

theorem holds_run (h : f.Holds slots) (hrun : Runs.exec (step ends) f acts = some f') :
    f'.Holds slots :=
  Runs.exec_invariant (fun _ _ _ hs hstep => holds_step hs hstep) h hrun

theorem accounts_run (h : f.Accounts ends jobs) (hrun : Runs.exec (step ends) f acts = some f') :
    f'.Accounts ends jobs :=
  Runs.exec_invariant (fun _ _ _ hs hstep => accounts_step hs hstep) h hrun

/-- Never more tasks at once than there are slots. -/
theorem running_le {n : Nat} (h : f.Holds (some n)) : f.running ≤ n := by
  obtain ⟨k, -, hk⟩ := Option.map_eq_some_iff.mp h.symm
  omega

theorem moves_run (hrun : Runs.exec (step ends) f acts = some f') :
    f.moves + f'.interrupted.toNat = f'.moves + f.interrupted.toNat + acts.length := by
  induction acts generalizing f with
  | nil =>
    cases hrun
    rfl
  | cons a acts ih =>
    obtain ⟨m, hstep, hrun⟩ := Runs.exec_cons.mp hrun
    have hfirst := moves_step hstep
    have hrest := ih hrun
    rw [List.length_cons]
    omega

/-- A running task can always end in some way. -/
def CanEnd (ends : α → Bool → Bool → β → Bool) : Prop :=
  ∀ job late now, ∃ result, ends job late now result = true

/-- Before the end something other than the interrupt can happen. -/
theorem exists_step (hslots : slots ≠ some 0) (hends : CanEnd ends) (h : f.Holds slots)
    (hnot : ¬f.Finished) : ∃ a f', step ends f a = some f' ∧ f'.interrupted = f.interrupted := by
  obtain ⟨t, ht, hleft⟩ : ∃ t ∈ f.tasks, t.result? = none := by
    simpa [Fan.Finished] using hnot
  obtain ⟨front, back, htasks⟩ := List.append_of_mem ht
  cases t with
  | collected => cases hleft
  | ended result => exact ⟨_, _, step_of_effect (.collect htasks), rfl⟩
  | running job late =>
    obtain ⟨result, hresult⟩ := hends job late f.interrupted
    exact ⟨_, _, step_of_effect (.finish htasks hresult), rfl⟩
  | waiting job =>
    cases hslot : takeSlot f.slots with
    | some rest => exact ⟨_, _, step_of_effect (.acquire htasks hslot), rfl⟩
    | none =>
      -- every slot is taken, so some task is running
      have hzero : f.slots = some 0 := by
        cases hfree : f.slots with
        | none =>
          rw [hfree] at hslot
          cases hslot
        | some n =>
          rw [hfree] at hslot
          cases n with
          | zero => rfl
          | succ n => cases hslot
      rw [Fan.Holds, hzero, Option.map_some, Nat.zero_add] at h
      have hbusy : 0 < f.running := Nat.pos_of_ne_zero fun hnone => hslots (hnone ▸ h)
      obtain ⟨s, hs, hrunning⟩ := List.countP_pos_iff.mp hbusy
      obtain ⟨front', back', htasks'⟩ := List.append_of_mem hs
      cases s with
      | running job' late =>
        obtain ⟨result, hresult⟩ := hends job' late f.interrupted
        exact ⟨_, _, step_of_effect (.finish htasks' hresult), rfl⟩
      | waiting | ended | collected => cases hrunning

theorem results_step {a : Act β} (hstep : step ends f a = some f') : f.results <+: f'.results := by
  cases effect_of_step hstep with
  | collect => exact List.prefix_append _ _
  | acquire | finish | interrupt => exact List.prefix_refl _

/-- Every run can be completed. -/
theorem exists_completion (hslots : slots ≠ some 0) (hends : CanEnd ends) (h : f.Holds slots) :
    ∃ acts f', Runs.exec (step ends) f acts = some f' ∧ f'.Finished ∧
      f'.interrupted = f.interrupted ∧ f.results <+: f'.results := by
  induction hm : f.moves using Nat.strong_induction_on generalizing f with
  | _ n ih =>
    by_cases hdone : f.Finished
    · exact ⟨[], f, rfl, hdone, rfl, List.prefix_refl _⟩
    · obtain ⟨a, mid, hstep, hflag⟩ := exists_step hslots hends h hdone
      have hmoves := moves_step hstep
      rw [hflag] at hmoves
      obtain ⟨acts, f', hrun, hfinished, hinterrupted, hresults⟩ :=
        ih mid.moves (by omega) (holds_step h hstep) rfl
      exact ⟨a :: acts, f', Runs.exec_cons.mpr ⟨mid, hstep, hrun⟩, hfinished,
        hinterrupted.trans hflag, (results_step hstep).trans hresults⟩

theorem moves_eq_zero (h : f.Finished) : f.moves = 0 := by
  refine List.sum_eq_zero fun n hn => ?_
  obtain ⟨t, ht, rfl⟩ := List.mem_map.mp hn
  have hdone := h t ht
  cases t with
  | collected => rfl
  | waiting | running | ended => cases hdone

/-- A complete run takes three moves for each task, and one for the interrupt when it came. -/
theorem length_of_finished (hrun : Runs.exec (step ends) (start slots jobs) acts = some f)
    (h : f.Finished) : acts.length = 3 * jobs.length + f.interrupted.toNat := by
  have hmoves := moves_run hrun
  have hstart : (start slots jobs : Fan α β).moves = 3 * jobs.length := by
    simp [Fan.moves, start, Task.moves, Function.comp_def, Nat.mul_comm]
  rw [hstart, moves_eq_zero h] at hmoves
  have hfresh : (start slots jobs : Fan α β).interrupted = false := rfl
  rw [hfresh, Bool.toNat_false] at hmoves
  omega

/-- In the end each job has one result, and these are what was collected. -/
theorem results_of_finished (h : f.Accounts ends jobs) (hdone : f.Finished) :
    ∃ results, f.results.Perm results ∧ List.Forall₂ (Came ends f.interrupted) jobs results := by
  refine ⟨f.tasks.filterMap Task.result?, h.results, ?_⟩
  obtain ⟨hstands, -⟩ := h
  rw [Fan.Finished] at hdone
  generalize f.tasks = tasks at hstands hdone
  induction hstands with
  | nil => exact .nil
  | @cons job t jobs tasks hjob _ ih =>
    obtain ⟨ht, hrest⟩ := List.forall_mem_cons.mp hdone
    cases t with
    | collected result => exact .cons hjob (ih hrest)
    | waiting | running | ended => cases ht

/-- A job that waited for its slot when the interrupt came. -/
def Late (ends : α → Bool → Bool → β → Bool) : Task α β → Task α β → Prop
  | .waiting job, .waiting job' => job' = job
  | .waiting job, .running job' late => job' = job ∧ late = true
  | .waiting job, .ended result => ends job true true result = true
  | .waiting job, .collected result => ends job true true result = true
  | _, _ => True

theorem late_refl (t : Task α β) : Late ends t t := by
  cases t with
  | waiting => rfl
  | running | ended | collected => exact trivial

/-- After the interrupt: every task that waited then starts late, if at all. -/
theorem late_run (hinterrupted : f.interrupted = true)
    (hrun : Runs.exec (step ends) f acts = some f') : List.Forall₂ (Late ends) f.tasks f'.tasks := by
  have hkeeps : ∀ s a s', (s.interrupted = true ∧ List.Forall₂ (Late ends) f.tasks s.tasks) →
      step ends s a = some s' →
      s'.interrupted = true ∧ List.Forall₂ (Late ends) f.tasks s'.tasks := by
    intro s a s' hs hstep
    obtain ⟨hflag, hlate⟩ := hs
    cases effect_of_step hstep with
    | acquire htasks hslot =>
      rw [htasks] at hlate
      refine ⟨hflag, forall₂_replace hlate fun t ht => ?_⟩
      cases t with
      | waiting => exact ⟨ht, hflag⟩
      | running | ended | collected => exact trivial
    | finish htasks hends =>
      rw [htasks] at hlate
      refine ⟨hflag, forall₂_replace hlate fun t ht => ?_⟩
      cases t with
      | waiting =>
        obtain ⟨rfl, rfl⟩ := ht
        rw [hflag] at hends
        exact hends
      | running | ended | collected => exact trivial
    | collect htasks =>
      rw [htasks] at hlate
      refine ⟨hflag, forall₂_replace hlate fun t ht => ?_⟩
      cases t with
      | waiting => exact ht
      | running | ended | collected => exact trivial
    | interrupt hfresh =>
      rw [hflag] at hfresh
      cases hfresh
  exact (Runs.exec_invariant hkeeps ⟨hinterrupted, List.forall₂_same.mpr fun t _ => late_refl t⟩
    hrun).2

theorem exists_late {tasks tasks' : List (Task α β)} (h : List.Forall₂ (Late ends) tasks tasks')
    {t : Task α β} (ht : t ∈ tasks) : ∃ t' ∈ tasks', Late ends t t' := by
  induction h with
  | nil => exact absurd ht List.not_mem_nil
  | @cons s s' tasks tasks' hs _ ih =>
    rcases List.mem_cons.mp ht with rfl | ht
    · exact ⟨s', List.mem_cons_self, hs⟩
    · obtain ⟨t', ht', hlate⟩ := ih ht
      exact ⟨t', .tail _ ht', hlate⟩

/-- All tasks wait but this one. -/
def around (front back : List α) (t : Task α β) (slots : Option Nat) (results : List β) : Fan α β :=
  ⟨front.map .waiting ++ t :: back.map .waiting, slots, false, results⟩

/-- Any job may be the first that is collected. -/
theorem exists_first (hslots : slots ≠ some 0) (hends : CanEnd ends) {job : α} (hjob : job ∈ jobs)
    {result : β} (hresult : ends job false false result = true) :
    ∃ acts f rest, Runs.exec (step ends) (start slots jobs) acts = some f ∧ f.Finished ∧
      f.interrupted = false ∧ f.results = result :: rest := by
  obtain ⟨front, back, rfl⟩ := List.append_of_mem hjob
  obtain ⟨rest, hslot⟩ : ∃ rest, takeSlot slots = some rest := by
    cases slots with
    | none => exact ⟨none, rfl⟩
    | some n =>
      cases n with
      | zero => exact absurd rfl hslots
      | succ n => exact ⟨some n, rfl⟩
  let i := (front.map (@Task.waiting α β)).length
  have hstart : (start slots (front ++ job :: back) : Fan α β) =
      around front back (.waiting job) slots [] := by
    rw [start, List.map_append, List.map_cons, around]
  have hfirst : step ends (around front back (.waiting job) slots []) (.acquire i) =
      some (around front back (.running job false) rest []) :=
    step_of_effect (.acquire rfl hslot)
  have hsecond : step ends (around front back (.running job false) rest []) (.finish i result) =
      some (around front back (.ended result) (rest.map (· + 1)) []) :=
    step_of_effect (.finish rfl hresult)
  have hthird : step ends (around front back (.ended result) (rest.map (· + 1)) []) (.collect i) =
      some (around front back (.collected result) (rest.map (· + 1)) [result]) :=
    step_of_effect (.collect rfl)
  have hrun : Runs.exec (step ends) (start slots (front ++ job :: back))
      [.acquire i, .finish i result, .collect i] =
      some (around front back (.collected result) (rest.map (· + 1)) [result]) := by
    rw [hstart]
    exact Runs.exec_cons.mpr ⟨_, hfirst, Runs.exec_cons.mpr ⟨_, hsecond, Runs.exec_cons.mpr
      ⟨_, hthird, rfl⟩⟩⟩
  obtain ⟨acts, f, hrest, hdone, hflag, more, hmore⟩ :=
    exists_completion hslots hends (holds_run holds_start hrun)
  exact ⟨_, f, more, Runs.exec_append.mpr ⟨_, hrun, hrest⟩, hdone, hflag, hmore.symm⟩

end Runs

end FanOut
