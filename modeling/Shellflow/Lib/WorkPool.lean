import Mathlib
import Shellflow.Lib.Runs

/-! A fixed pool of workers that drain one queue: each takes a job under a lock, works on it, and
pushes its result under another. -/
namespace WorkPool
universe u v
variable {α : Type u} {β : Type v}

inductive Worker (α : Type u) where
  | free
  | busy (job : α)
  | gone
deriving DecidableEq

structure Pool (α : Type u) (β : Type v) where
  queue : List α
  workers : List (Worker α)
  results : List β
deriving DecidableEq

def start (n : Nat) (jobs : List α) : Pool α β := ⟨jobs, List.replicate n .free, []⟩

/-- The next move of a worker; one that is gone has none. -/
def step (work : α → β) (p : Pool α β) (i : Nat) : Option (Pool α β) :=
  match p.workers[i]? with
  | some .free =>
    match p.queue with
    | [] => some { p with workers := p.workers.set i .gone }
    | job :: queue => some { p with queue := queue, workers := p.workers.set i (.busy job) }
  | some (.busy job) =>
    some { p with workers := p.workers.set i .free, results := p.results ++ [work job] }
  | _ => none

def Worker.job? : Worker α → Option α
  | .busy job => some job
  | _ => none

def Pool.held (p : Pool α β) : List α := p.workers.filterMap Worker.job?

def Pool.Finished (p : Pool α β) : Prop := ∀ w ∈ p.workers, w = .gone

instance [DecidableEq α] (p : Pool α β) : Decidable p.Finished :=
  inferInstanceAs (Decidable (∀ w ∈ p.workers, w = .gone))

def Worker.moves : Worker α → Nat
  | .free => 1
  | .busy _ => 2
  | .gone => 0

/-- The moves that are left: two for each job, and one for each worker to leave. -/
def Pool.moves (p : Pool α β) : Nat := 2 * p.queue.length + (p.workers.map Worker.moves).sum

section Steps
variable {work : α → β} {p p' : Pool α β} {i : Nat} {jobs : List α}

/-- What one move does: a job is taken, a result is pushed, or a worker leaves. -/
theorem step_cases (h : step work p i = some p') :
    ∃ front back, (∃ job queue, p.queue = job :: queue ∧ p.workers = front ++ .free :: back ∧
        p' = ⟨queue, front ++ .busy job :: back, p.results⟩) ∨
      (∃ job, p.workers = front ++ .busy job :: back ∧
        p' = ⟨p.queue, front ++ .free :: back, p.results ++ [work job]⟩) ∨
      (p.queue = [] ∧ p.workers = front ++ .free :: back ∧
        p' = ⟨p.queue, front ++ .gone :: back, p.results⟩) := by
  rw [step] at h
  cases hw : p.workers[i]? with
  | none =>
    rw [hw] at h
    cases h
  | some w =>
    rw [hw] at h
    obtain ⟨hi, hget⟩ := List.getElem?_eq_some_iff.mp hw
    have hsplit : p.workers = p.workers.take i ++ w :: p.workers.drop (i + 1) := by
      rw [← hget, List.getElem_cons_drop, List.take_append_drop]
    have hset : ∀ w', p.workers.set i w' = p.workers.take i ++ w' :: p.workers.drop (i + 1) :=
      fun w' => List.set_eq_take_append_cons_drop.trans (if_pos hi)
    refine ⟨p.workers.take i, p.workers.drop (i + 1), ?_⟩
    cases w with
    | gone => cases h
    | busy job =>
      rw [← Option.some.inj h, hset]
      exact .inr (.inl ⟨job, hsplit, rfl⟩)
    | free =>
      cases hq : p.queue with
      | nil =>
        rw [hq] at h
        rw [← Option.some.inj h, hset]
        exact .inr (.inr ⟨rfl, hsplit, rfl⟩)
      | cons job queue =>
        rw [hq] at h
        rw [← Option.some.inj h, hset]
        exact .inl ⟨job, queue, rfl, hsplit, rfl⟩

/-- Nothing is lost or done twice: the jobs are done, held or queued. -/
def Accounts (work : α → β) (jobs : List α) (p : Pool α β) : Prop :=
  ∃ done, p.results = done.map work ∧ (done ++ p.held ++ p.queue).Perm jobs

theorem accounts_start (n : Nat) : Accounts work jobs (start n jobs) := by
  refine ⟨[], rfl, ?_⟩
  have hheld : (start n jobs : Pool α β).held = [] := by
    simp [Pool.held, start, List.filterMap_replicate, Worker.job?]
  rw [hheld, List.nil_append]
  exact List.Perm.refl _

theorem accounts_step (h : Accounts work jobs p) (hstep : step work p i = some p') :
    Accounts work jobs p' := by
  obtain ⟨done, hresults, hperm⟩ := h
  rw [Pool.held] at hperm
  obtain ⟨front, back, ⟨job, queue, hq, hw, rfl⟩ | ⟨job, hw, rfl⟩ | ⟨hq, hw, rfl⟩⟩ := step_cases hstep
  · refine ⟨done, hresults, List.Perm.trans ?_ hperm⟩
    rw [hq, hw, Pool.held]
    simp only [List.filterMap_append, List.filterMap_cons, Worker.job?, List.append_assoc,
      List.cons_append]
    refine List.Perm.append_left done (List.Perm.append_left _ ?_)
    exact List.perm_middle.symm
  · refine ⟨done ++ [job], by rw [hresults, List.map_append]; rfl, List.Perm.trans ?_ hperm⟩
    rw [hw, Pool.held]
    simp only [List.filterMap_append, List.filterMap_cons, Worker.job?, List.append_assoc,
      List.cons_append, List.nil_append]
    refine List.Perm.append_left done ?_
    exact List.perm_middle.symm
  · refine ⟨done, hresults, List.Perm.trans ?_ hperm⟩
    rw [hw, Pool.held]
    simp only [List.filterMap_append, List.filterMap_cons, Worker.job?]
    exact List.Perm.refl _

/-- A worker leaves only an empty queue. -/
def LeavesEmpty (p : Pool α β) : Prop := .gone ∈ p.workers → p.queue = []

theorem leavesEmpty_start (n : Nat) : LeavesEmpty (start n jobs : Pool α β) := fun h =>
  absurd (List.eq_of_mem_replicate h) nofun

theorem leavesEmpty_step (h : LeavesEmpty p) (hstep : step work p i = some p') : LeavesEmpty p' := by
  rw [LeavesEmpty] at h
  obtain ⟨front, back, ⟨job, queue, hq, hw, rfl⟩ | ⟨job, hw, rfl⟩ | ⟨hq, hw, rfl⟩⟩ := step_cases hstep
  · intro hgone
    have hempty : p.queue = [] := h (by rw [hw]; simpa using hgone)
    rw [hq] at hempty
    cases hempty
  · intro hgone
    exact h (by rw [hw]; simpa using hgone)
  · exact fun _ => hq

theorem workers_step (hstep : step work p i = some p') : p'.workers.length = p.workers.length := by
  obtain ⟨front, back, ⟨job, queue, hq, hw, rfl⟩ | ⟨job, hw, rfl⟩ | ⟨hq, hw, rfl⟩⟩ := step_cases hstep <;>
    simp [hw]

/-- Each move is one of those that were left. -/
theorem moves_step (hstep : step work p i = some p') : p.moves = p'.moves + 1 := by
  rw [Pool.moves, Pool.moves]
  obtain ⟨front, back, ⟨job, queue, hq, hw, rfl⟩ | ⟨job, hw, rfl⟩ | ⟨hq, hw, rfl⟩⟩ := step_cases hstep
  · simp [hq, hw, Worker.moves]
    omega
  · simp [hw, Worker.moves]
    omega
  · simp [hw, Worker.moves]
    omega

/-- A pool that is not done can move. -/
theorem exists_step (h : ¬p.Finished) : ∃ i, (step work p i).isSome := by
  obtain ⟨w, hw, hne⟩ : ∃ w ∈ p.workers, w ≠ .gone := by
    simpa [Pool.Finished] using h
  obtain ⟨i, hi⟩ := List.mem_iff_getElem?.mp hw
  refine ⟨i, ?_⟩
  rw [step, hi]
  cases w with
  | gone => exact absurd rfl hne
  | busy job => rfl
  | free => cases p.queue <;> rfl

end Steps

section Run
variable {work : α → β} {jobs : List α} {n : Nat} {acts : List Nat} {p : Pool α β}
  (h : Runs.exec (step work) (start n jobs) acts = some p)
include h

theorem accounts_run : Accounts work jobs p :=
  Runs.exec_invariant (fun _ _ _ => accounts_step) (accounts_start n) h

theorem workers_run : p.workers.length = n :=
  Runs.exec_invariant (P := fun q => q.workers.length = n)
    (fun _ _ _ hlength hstep => (workers_step hstep).trans hlength) (List.length_replicate ..) h

theorem leavesEmpty_run : LeavesEmpty p :=
  Runs.exec_invariant (fun _ _ _ => leavesEmpty_step) (leavesEmpty_start n) h

theorem held_run : p.held.length ≤ n := by
  rw [← workers_run h]
  exact List.length_filterMap_le _ _

/-- Every order of moves is as long. -/
theorem moves_run : acts.length + p.moves = 2 * jobs.length + n := by
  have hmoves : ∀ (q : Pool α β), Runs.exec (step work) q acts = some p →
      acts.length + p.moves = q.moves := by
    clear h
    induction acts with
    | nil =>
      intro q hrun
      rw [Option.some.inj hrun, List.length_nil, Nat.zero_add]
    | cons i acts ih =>
      intro q hrun
      obtain ⟨m, hstep, hrun⟩ := Runs.exec_cons.mp hrun
      have hrest := ih m hrun
      rw [List.length_cons, moves_step hstep]
      omega
  rw [hmoves _ h, Pool.moves, start]
  simp [Worker.moves]

/-- In the end every job was done once. -/
theorem finished_results (hn : 0 < n) (hend : p.Finished) :
    ∃ done : List α, p.results = done.map work ∧ done.Perm jobs := by
  obtain ⟨done, hresults, hperm⟩ := accounts_run h
  have hheld : p.held = [] := List.filterMap_eq_nil_iff.mpr fun w hw => by rw [hend w hw]; rfl
  have hgone : .gone ∈ p.workers := by
    obtain ⟨w, hw⟩ := List.exists_mem_of_length_pos ((workers_run h).symm ▸ hn)
    exact hend w hw ▸ hw
  rw [hheld, leavesEmpty_run h hgone, List.append_nil, List.append_nil] at hperm
  exact ⟨done, hresults, hperm⟩

theorem finished_moves (hn : 0 < n) (hend : p.Finished) : acts.length = 2 * jobs.length + n := by
  have hgone : .gone ∈ p.workers := by
    obtain ⟨w, hw⟩ := List.exists_mem_of_length_pos ((workers_run h).symm ▸ hn)
    exact hend w hw ▸ hw
  have hworkers : (p.workers.map Worker.moves).sum = 0 := by
    rw [List.eq_replicate_of_mem hend]
    simp [Worker.moves]
  have hmoves := moves_run h
  rw [Pool.moves, hworkers, leavesEmpty_run h hgone, List.length_nil] at hmoves
  exact hmoves

end Run

end WorkPool
