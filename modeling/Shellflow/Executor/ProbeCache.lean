import Mathlib.Logic.Function.Basic
import Mathlib.Tactic.Push
import Mathlib.Tactic.Simps.Basic
import Shellflow.Lib.Runs

/-! The cache of the remote environments, shared by the tasks of a run. A key leads to a cell that
is filled once, by the first task that takes it; the lock of the map is not held meanwhile. -/
namespace Shellflow
open Runs

/-- A cell that is filled once; `done none` is a probe that failed. -/
inductive ProbeCell (E : Type*)
  | empty
  | running
  | done (env : Option E)

/-- Where a task is in `resolve_remote_env`. -/
inductive ProbePhase (κ E : Type*)
  | free
  | holding (key : κ) (cell : Nat)
  | probing (key : κ) (cell : Nat)
  | failing (key : κ) (cell : Nat)
  /-- What the task returned; none is the default environment. -/
  | resolved (env : Option E)

structure ProbeCache (τ κ E : Type*) where
  map : κ → Option Nat
  cells : Nat → ProbeCell E
  next : Nat
  tasks : τ → ProbePhase κ E

inductive ProbeAct (τ κ E : Type*)
  /-- `map.entry(key).or_default()`, under the lock. -/
  | lookup (task : τ) (key : κ)
  /-- `get_or_init` finds the cell free, and the task probes. -/
  | start (task : τ)
  | finish (task : τ) (env : Option E)
  /-- `get_or_init` finds the cell filled. -/
  | read (task : τ)
  /-- `map.remove(key)`, under the lock. -/
  | evict (task : τ)

namespace ProbePhase
variable {κ E : Type*}

/-- After `get_or_init`: a failed probe is not kept. -/
def settle (key : κ) (cell : Nat) : Option E → ProbePhase κ E
  | some env => resolved (some env)
  | none => failing key cell

/-- The cell that the task works with. -/
def cell? : ProbePhase κ E → Option Nat
  | holding _ c | probing _ c | failing _ c => some c
  | free | resolved _ => none

/-- A task between two calls. -/
def ready : ProbePhase κ E → Bool
  | free | resolved _ => true
  | _ => false

end ProbePhase

namespace ProbeCache
variable {τ κ E : Type*} [DecidableEq τ] [DecidableEq κ]

def new : ProbeCache τ κ E := ⟨fun _ => none, fun _ => .empty, 0, fun _ => .free⟩

@[simps] def setTask (s : ProbeCache τ κ E) (t : τ) (phase : ProbePhase κ E) : ProbeCache τ κ E :=
  { s with tasks := Function.update s.tasks t phase }

@[simps] def setMap (s : ProbeCache τ κ E) (k : κ) (cell : Option Nat) : ProbeCache τ κ E :=
  { s with map := Function.update s.map k cell }

@[simps] def setCell (s : ProbeCache τ κ E) (c : Nat) (cell : ProbeCell E) : ProbeCache τ κ E :=
  { s with cells := Function.update s.cells c cell }

def step (s : ProbeCache τ κ E) : ProbeAct τ κ E → Option (ProbeCache τ κ E)
  | .lookup t k =>
    if (s.tasks t).ready then
      match s.map k with
      | some c => some (s.setTask t (.holding k c))
      | none =>
        some ((({ s with next := s.next + 1 }.setCell s.next .empty).setMap k (some s.next)).setTask t
          (.holding k s.next))
    else none
  | .start t =>
    match s.tasks t with
    | .holding k c =>
      match s.cells c with
      | .empty => some ((s.setCell c .running).setTask t (.probing k c))
      | _ => none
    | _ => none
  | .finish t env =>
    match s.tasks t with
    | .probing k c => some ((s.setCell c (.done env)).setTask t (.settle k c env))
    | _ => none
  | .read t =>
    match s.tasks t with
    | .holding k c =>
      match s.cells c with
      | .done env => some (s.setTask t (.settle k c env))
      | _ => none
    | _ => none
  | .evict t =>
    match s.tasks t with
    | .failing k _ => some ((s.setMap k none).setTask t (.resolved none))
    | _ => none

/-- What a step can do, one constructor for each branch. -/
inductive Steps (s : ProbeCache τ κ E) : ProbeAct τ κ E → ProbeCache τ κ E → Prop
  | found {t k c} (hready : (s.tasks t).ready = true) (hmap : s.map k = some c) :
    Steps s (.lookup t k) (s.setTask t (.holding k c))
  | fresh {t k} (hready : (s.tasks t).ready = true) (hmap : s.map k = none) :
    Steps s (.lookup t k)
      ((({ s with next := s.next + 1 }.setCell s.next .empty).setMap k (some s.next)).setTask t
        (.holding k s.next))
  | start {t k c} (htask : s.tasks t = .holding k c) (hcell : s.cells c = .empty) :
    Steps s (.start t) ((s.setCell c .running).setTask t (.probing k c))
  | finish {t k c env} (htask : s.tasks t = .probing k c) :
    Steps s (.finish t env) ((s.setCell c (.done env)).setTask t (.settle k c env))
  | read {t k c env} (htask : s.tasks t = .holding k c) (hcell : s.cells c = .done env) :
    Steps s (.read t) (s.setTask t (.settle k c env))
  | evict {t k c} (htask : s.tasks t = .failing k c) :
    Steps s (.evict t) ((s.setMap k none).setTask t (.resolved none))

theorem steps_of_step {s s' : ProbeCache τ κ E} {a : ProbeAct τ κ E} (h : step s a = some s') :
    Steps s a s' := by
  cases a with
  | lookup t k =>
    simp only [step] at h
    split at h
    · next hready =>
      cases hmap : s.map k with
      | none =>
        rw [hmap] at h
        cases h
        exact .fresh hready hmap
      | some c =>
        rw [hmap] at h
        cases h
        exact .found hready hmap
    · cases h
  | start t =>
    simp only [step] at h
    split at h
    · next htask =>
      split at h
      · next hcell =>
        cases h
        exact .start htask hcell
      · cases h
    · cases h
  | finish t env =>
    simp only [step] at h
    split at h
    · next htask =>
      cases h
      exact .finish htask
    · cases h
  | read t =>
    simp only [step] at h
    split at h
    · next htask =>
      split at h
      · next hcell =>
        cases h
        exact .read htask hcell
      · cases h
    · cases h
  | evict t =>
    simp only [step] at h
    split at h
    · next htask =>
      cases h
      exact .evict htask
    · cases h

/-- The cells in use are allocated, and a cell that is being filled has one task that fills it. -/
structure Sound (s : ProbeCache τ κ E) : Prop where
  mapped : ∀ k c, s.map k = some c → c < s.next
  held : ∀ t c, (s.tasks t).cell? = some c → c < s.next
  running : ∀ t k c, s.tasks t = .probing k c → s.cells c = .running
  single : ∀ t t' k k' c, s.tasks t = .probing k c → s.tasks t' = .probing k' c → t = t'

attribute [local grind =] setTask_map setTask_cells setTask_next setTask_tasks setMap_map
  setMap_cells setMap_next setMap_tasks setCell_map setCell_cells setCell_next setCell_tasks
  Function.update_apply ProbePhase.cell?

omit [DecidableEq τ] [DecidableEq κ] in
theorem sound_new : Sound (new : ProbeCache τ κ E) where
  mapped := fun _ _ h => by cases h
  held := fun _ _ h => by cases h
  running := fun _ _ _ h => by cases h
  single := fun _ _ _ _ _ h => by cases h

section Step
variable {s s' : ProbeCache τ κ E} {a : ProbeAct τ κ E}

omit [DecidableEq κ] in
/-- A task that does not begin to fill a cell. -/
theorem Sound.setTask (h : Sound s) {t : τ} {phase : ProbePhase κ E}
    (hcell : ∀ c, phase.cell? = some c → c < s.next) (hfill : ∀ k c, phase ≠ .probing k c) :
    Sound (s.setTask t phase) := by
  obtain ⟨hmapped, hheld, hrunning, hsingle⟩ := h
  constructor
  · exact hmapped
  · grind
  · grind
  · grind

omit [DecidableEq τ] in
theorem Sound.setMap_none (h : Sound s) (k : κ) : Sound (s.setMap k none) := by
  obtain ⟨hmapped, hheld, hrunning, hsingle⟩ := h
  constructor
  · grind
  · exact hheld
  · exact hrunning
  · exact hsingle

omit [DecidableEq τ] in
/-- A new cell is held by nobody. -/
theorem Sound.allocate (h : Sound s) (k : κ) :
    Sound (({ s with next := s.next + 1 }.setCell s.next .empty).setMap k (some s.next)) := by
  obtain ⟨hmapped, hheld, hrunning, hsingle⟩ := h
  constructor
  · grind
  · exact fun t c hc => Nat.lt_succ_of_lt (hheld t c hc)
  · intro t k c ht
    have hlt : c < s.next := hheld t c (by rw [show s.tasks t = .probing k c from ht]; rfl)
    grind
  · exact hsingle

omit [DecidableEq κ] in
theorem cell?_settle {k : κ} {c d : Nat} {env : Option E}
    (h : (ProbePhase.settle k c env).cell? = some d) : d = c := by
  cases env with
  | none => exact (Option.some.inj h).symm
  | some env => cases h

omit [DecidableEq κ] in
theorem settle_ne_probing {k k' : κ} {c c' : Nat} {env : Option E} :
    ProbePhase.settle k c env ≠ .probing k' c' := by
  cases env <;> exact nofun

theorem sound_step (h : Sound s) (hstep : step s a = some s') : Sound s' := by
  cases steps_of_step hstep with
  | @found t k c hready hmap =>
    refine h.setTask (fun d hd => ?_) nofun
    cases hd
    exact h.mapped k c hmap
  | fresh hready hmap =>
    refine (h.allocate _).setTask (fun d hd => ?_) nofun
    cases hd
    exact Nat.lt_succ_self s.next
  | @start t k c htask hcell =>
    have hc : c < s.next := h.held t c (by rw [htask]; rfl)
    obtain ⟨hmapped, hheld, hrunning, hsingle⟩ := h
    -- nobody else fills a cell that is empty
    have hother : ∀ t' k', s.tasks t' ≠ .probing k' c := fun t' k' ht' => by
      rw [hrunning t' k' c ht'] at hcell
      cases hcell
    constructor
    all_goals grind
  | @finish t k c env htask =>
    have hc : c < s.next := h.held t c (by rw [htask]; rfl)
    have hset : Sound (s.setTask t (.settle k c env)) :=
      h.setTask (fun d hd => cell?_settle hd ▸ hc) fun _ _ => settle_ne_probing
    refine ⟨hset.mapped, hset.held, fun t' k' c' ht' => ?_, hset.single⟩
    have hne : t' ≠ t := fun he => by
      rw [he, setTask_tasks, Function.update_self] at ht'
      exact settle_ne_probing ht'
    rw [setTask_tasks, Function.update_of_ne hne] at ht'
    have hcc : c' ≠ c := fun he => hne (h.single t' t k' k c (he ▸ ht') htask)
    exact (Function.update_of_ne hcc _ _).trans (h.running t' k' c' ht')
  | @read t k c env htask hcell =>
    have hc : c < s.next := h.held t c (by rw [htask]; rfl)
    exact h.setTask (fun d hd => cell?_settle hd ▸ hc) fun _ _ => settle_ne_probing
  | evict htask => exact (h.setMap_none _).setTask nofun nofun

/-- The map leads to a cell whose probe succeeded. -/
def Cached (s : ProbeCache τ κ E) (k : κ) (c : Nat) (e : E) : Prop :=
  s.map k = some c ∧ s.cells c = .done (some e)

/-- A task that removes its key after a failed probe finds no newer success under it. -/
def Spares (s : ProbeCache τ κ E) : ProbeAct τ κ E → Prop
  | .evict t => ∀ k c, s.tasks t = .failing k c → ∀ c' e, ¬ Cached s k c' e
  | _ => True

theorem cached_step {k : κ} {c : Nat} {e : E} (hs : Sound s) (h : Cached s k c e)
    (hok : Spares s a) (hstep : step s a = some s') : Cached s' k c e := by
  obtain ⟨hmap, hcell⟩ := h
  cases steps_of_step hstep with
  | found hready hmap' => exact ⟨hmap, hcell⟩
  | @fresh t k' hready hmap' =>
    have hk : k ≠ k' := fun hk => by
      rw [← hk, hmap] at hmap'
      cases hmap'
    have hc : c ≠ s.next := Nat.ne_of_lt (hs.mapped k c hmap)
    exact ⟨(Function.update_of_ne hk _ _).trans hmap, (Function.update_of_ne hc _ _).trans hcell⟩
  | @start t k' c' htask hempty =>
    have hc : c ≠ c' := fun hc => by
      rw [← hc, hcell] at hempty
      cases hempty
    exact ⟨hmap, (Function.update_of_ne hc _ _).trans hcell⟩
  | @finish t k' c' env htask =>
    have hc : c ≠ c' := fun hc => by
      rw [hc, hs.running t k' c' htask] at hcell
      cases hcell
    exact ⟨hmap, (Function.update_of_ne hc _ _).trans hcell⟩
  | read htask hcell' => exact ⟨hmap, hcell⟩
  | @evict t k' c' htask =>
    have hk : k ≠ k' := fun hk => hok k' c' htask c e (hk ▸ ⟨hmap, hcell⟩)
    exact ⟨(Function.update_of_ne hk _ _).trans hmap, hcell⟩

/-- The task has its cell, or it has returned what the cell holds. -/
def Answers (s : ProbeCache τ κ E) (t : τ) (k : κ) (c : Nat) (e : E) : Prop :=
  s.tasks t = .holding k c ∨ s.tasks t = .resolved (some e)

omit [DecidableEq κ] in
theorem tasks_setTask_of_ne {t t' : τ} {phase : ProbePhase κ E} (hne : t' ≠ t) :
    (s.setTask t' phase).tasks t = s.tasks t := Function.update_of_ne hne.symm _ _

theorem answers_lookup {t : τ} {k : κ} {c : Nat} {e : E} (h : Cached s k c e)
    (hstep : step s (.lookup t k) = some s') : Answers s' t k c e := by
  cases steps_of_step hstep with
  | found hready hmap =>
    rw [h.1, Option.some_inj] at hmap
    exact .inl (by simp [hmap])
  | fresh hready hmap =>
    rw [h.1] at hmap
    cases hmap

theorem answers_step {t : τ} {k : κ} {c : Nat} {e : E} (hc : Cached s k c e)
    (h : Answers s t k c e) (hok : ∀ k', a ≠ .lookup t k') (hstep : step s a = some s') :
    Answers s' t k c e := by
  cases steps_of_step hstep with
  | @found t' k' c' hready hmap =>
    have hne : t' ≠ t := fun he => hok k' (by rw [he])
    rw [Answers, tasks_setTask_of_ne hne]
    exact h
  | @fresh t' k' hready hmap =>
    have hne : t' ≠ t := fun he => hok k' (by rw [he])
    rw [Answers, tasks_setTask_of_ne hne]
    exact h
  | @start t' k' c' htask hempty =>
    have hne : t' ≠ t := fun he => by
      cases h with
      | inl h =>
        rw [he, h] at htask
        cases htask
        rw [hc.2] at hempty
        cases hempty
      | inr h =>
        rw [he, h] at htask
        cases htask
    rw [Answers, tasks_setTask_of_ne hne]
    exact h
  | @finish t' k' c' env htask =>
    have hne : t' ≠ t := fun he => by
      rw [he] at htask
      cases h with
      | inl h => rw [h] at htask; cases htask
      | inr h => rw [h] at htask; cases htask
    rw [Answers, tasks_setTask_of_ne hne]
    exact h
  | @read t' k' c' env htask hcell =>
    by_cases he : t' = t
    · rw [he] at htask
      cases h with
      | inl h =>
        rw [h] at htask
        cases htask
        rw [hc.2] at hcell
        cases hcell
        exact .inr (by simp [he, ProbePhase.settle])
      | inr h =>
        rw [h] at htask
        cases htask
    · rw [Answers, tasks_setTask_of_ne he]
      exact h
  | @evict t' k' c' htask =>
    have hne : t' ≠ t := fun he => by
      rw [he] at htask
      cases h with
      | inl h => rw [h] at htask; cases htask
      | inr h => rw [h] at htask; cases htask
    rw [Answers, tasks_setTask_of_ne hne]
    exact h

end Step

/-- A success that is in the map stays there, and every call that begins later answers with it. -/
def StaysCached (acts : List (ProbeAct τ κ E)) : Prop :=
  ∀ pre post s s', pre ++ post <+: acts → exec step new pre = some s → exec step s post = some s' →
    ∀ k c e, Cached s k c e → Cached s' k c e ∧
      ∀ t u v, post = u ++ .lookup t k :: v → (∀ k', .lookup t k' ∉ v) → Answers s' t k c e

theorem sound_exec {acts : List (ProbeAct τ κ E)} {s : ProbeCache τ κ E}
    (hrun : exec step new acts = some s) : Sound s :=
  exec_invariant (fun _ _ _ => sound_step) sound_new hrun

theorem cached_exec {acts : List (ProbeAct τ κ E)} {s s' : ProbeCache τ κ E} {k : κ} {c : Nat}
    {e : E} (hs : Sound s) (h : Cached s k c e) (hok : Along step Spares s acts)
    (hrun : exec step s acts = some s') : Cached s' k c e := by
  have hkeeps : Sound s' ∧ Cached s' k c e :=
    exec_keeps (P := fun s => Sound s ∧ Cached s k c e)
      (fun _ _ _ hs hok hstep => ⟨sound_step hs.1 hstep, cached_step hs.1 hs.2 hok hstep⟩) hok
      ⟨hs, h⟩ hrun
  exact hkeeps.2

theorem answers_exec {acts : List (ProbeAct τ κ E)} {s s' : ProbeCache τ κ E} {t : τ} {k : κ}
    {c : Nat} {e : E} (hs : Sound s) (hc : Cached s k c e) (h : Answers s t k c e)
    (hok : Along step Spares s acts) (hlast : ∀ k', .lookup t k' ∉ acts)
    (hrun : exec step s acts = some s') : Answers s' t k c e := by
  have hnot : Along step (fun _ a => ∀ k', a ≠ .lookup t k') s acts :=
    along_of_forall fun a ha _ k' he => hlast k' (he ▸ ha)
  have hkeeps : Sound s' ∧ Cached s' k c e ∧ Answers s' t k c e :=
    exec_keeps (P := fun s => Sound s ∧ Cached s k c e ∧ Answers s t k c e)
      (fun _ _ _ hs hok hstep => ⟨sound_step hs.1 hstep, cached_step hs.1 hs.2.1 hok.1 hstep,
        answers_step hs.2.1 hs.2.2 hok.2 hstep⟩) (hok.and hnot) ⟨hs, hc, h⟩ hrun
  exact hkeeps.2.2

end ProbeCache

end Shellflow
