import Mathlib.Data.List.Infix
import Shellflow.Executor.Copy

/-! The loop over the steps of a plan: which steps run, and what the run ends with. -/
namespace Shellflow

/-- What a step of the plan hands to the loop: an error before it could run, no outcome because it
broke down, or the outcomes of its hosts. -/
inductive SingleStep
  | unresolved (error : RunError)
  | broke
  | hosts (outcomes : List (String × HostOutcome))
deriving DecidableEq, Repr

/-- A step, by its name and by what comes of it when it runs. -/
structure PlanStep where
  name : Option String
  result : SingleStep
deriving DecidableEq, Repr

structure RunFlags where
  only : List String
  skip : List String
  continueOnError : Bool

inductive RunOutcome
  | success
  | failed (error : RunError)
  | interrupted (total : Nat) (tornDown : Bool)
deriving DecidableEq, Repr

section Selection

/-- A selector is a name or a number that counts from one. -/
def matchesSelector (selector : String) (step : PlanStep × Nat) : Bool :=
  selector == step.1.name.getD "" || Str.parseU64 selector == some (step.2 + 1)

def isSelected (flags : RunFlags) (step : PlanStep × Nat) : Bool :=
  (flags.only.isEmpty || flags.only.any fun selector => matchesSelector selector step) &&
    !flags.skip.any fun selector => matchesSelector selector step

/-- The selected steps with their indices in the plan. -/
def selectedSteps (flags : RunFlags) (plan : List PlanStep) : List (PlanStep × Nat) :=
  plan.zipIdx.filter (isSelected flags)

end Selection

section Loop

/-- The steps that ran so far, by their numbers, and the errors of the run. -/
structure PlanState where
  executed : List Nat
  failFast : Option RunError
  firstError : Option RunError

/-- The error of a step that ran. -/
def stepError : SingleStep → Option RunError
  | .unresolved _ => none
  | .broke => some .script
  | .hosts outcomes => stepErrorIfFailed outcomes

def PlanState.afterStep (st : PlanState) (continueOnError : Bool) (step : PlanStep × Nat) :
    PlanState :=
  let st := { st with executed := st.executed ++ [step.2 + 1] }
  match step.1.result with
  | .unresolved error => { st with failFast := some error }
  | result =>
    match stepError result with
    | none => st
    | some error =>
      let st := { st with firstError := st.firstError.or (some error) }
      if continueOnError then st else { st with failFast := some error }

/-- The signal is set once so many steps have run, if ever. -/
def isCancelled (cancelAt : Option Nat) (executed : Nat) : Bool := cancelAt.any fun n => n ≤ executed

def runSteps (continueOnError : Bool) (cancelAt : Option Nat) :
    List (PlanStep × Nat) → PlanState → PlanState
  | [], st => st
  | step :: rest, st =>
    if st.failFast.isSome then st
    else if isCancelled cancelAt st.executed.length then st
    else runSteps continueOnError cancelAt rest (st.afterStep continueOnError step)

/-- What a run returns, and the steps it has run. -/
structure PlanRun where
  outcome : RunOutcome
  executed : List Nat

/-- A step that did not resolve counts before the first step that failed. -/
def PlanState.finish (st : PlanState) (cancelAt : Option Nat) (total : Nat) : PlanRun :=
  if isCancelled cancelAt st.executed.length then ⟨.interrupted total true, st.executed⟩
  else
    match st.failFast.or st.firstError with
    | some error => ⟨.failed error, st.executed⟩
    | none => ⟨.success, st.executed⟩

/-- `setup` tells whether the run could be set up. -/
def executePlan (flags : RunFlags) (plan : List PlanStep) (setup : Bool) (cancelAt : Option Nat) :
    PlanRun :=
  if !setup then ⟨.failed .config, []⟩
  else
    let st := runSteps flags.continueOnError cancelAt (selectedSteps flags plan) ⟨[], none, none⟩
    st.finish cancelAt plan.length

end Loop

section Law

/-- The error of a failing step. -/
def errorOf (step : PlanStep × Nat) : Option RunError :=
  match step.1.result with
  | .unresolved error => some error
  | result => stepError result

def Resolves (step : PlanStep × Nat) : Prop := ∀ error, step.1.result ≠ .unresolved error

/-- Every host of the step ended well. -/
def EndsWell (step : PlanStep × Nat) : Prop :=
  ∃ outcomes, step.1.result = .hosts outcomes ∧
    ∀ host ∈ outcomes, host.2 = .ok ∨ host.2 = .skipped

/-- The numbers of steps, as they are counted for a reader. -/
def numbers (steps : List (PlanStep × Nat)) : List Nat := steps.map fun step => step.2 + 1

/-- How the selected steps, the steps that ran and the outcome of a run belong together. -/
structure RunLaw (continueOnError : Bool) (cancelAt : Option Nat) (selected : List (PlanStep × Nat))
    (run : PlanRun) : Prop where
  success : run.outcome = .success ↔ isCancelled cancelAt run.executed.length = false ∧
    run.executed = numbers selected ∧ ∀ step ∈ selected, EndsWell step
  stops : continueOnError = false → ∀ before step after, selected = before ++ step :: after →
    (errorOf step).isSome → run.executed <+: numbers (before ++ [step])
  /-- A step's turn comes before the signal is set. -/
  continues : continueOnError = true → ∀ before step after, selected = before ++ step :: after →
    (∀ earlier ∈ before, Resolves earlier) → isCancelled cancelAt before.length = false →
    numbers (before ++ [step]) <+: run.executed
  first : isCancelled cancelAt run.executed.length = false → ∀ before step after error,
    selected = before ++ step :: after → (∀ earlier ∈ before, errorOf earlier = none) →
    errorOf step = some error → run.outcome = .failed error

/-- A selected step that does not resolve after an earlier one failed has the error of the first
failing step. -/
def LateErrorAgrees (continueOnError : Bool) (cancelAt : Option Nat)
    (selected : List (PlanStep × Nat)) : Prop :=
  continueOnError = true → ∀ before step after error, selected = before ++ step :: after →
    step.1.result = .unresolved error → (∀ earlier ∈ before, Resolves earlier) →
    isCancelled cancelAt (before.length + 1) = false →
    ∀ earliest, before.findSome? errorOf = some earliest → earliest = error

/-- A host is cancelled by the signal only. -/
def CancelledBySignal (cancelAt : Option Nat) (selected : List (PlanStep × Nat)) : Prop :=
  ∀ before step after outcomes, selected = before ++ step :: after →
    step.1.result = .hosts outcomes → (∃ host ∈ outcomes, host.2 = .cancelled) →
    isCancelled cancelAt (before.length + 1) = true

end Law

section Run
variable {c : Bool} {cancelAt : Option Nat} {ran selected : List (PlanStep × Nat)} {st : PlanState}

theorem isCancelled_mono {m n : Nat} (h : m ≤ n) (hm : isCancelled cancelAt m = true) :
    isCancelled cancelAt n = true := by
  cases cancelAt with
  | none => cases hm
  | some limit =>
    simp only [isCancelled, Option.any_some, decide_eq_true_eq] at hm ⊢
    exact hm.trans h

/-- The error of a step that ends the loop. -/
def haltError (continueOnError : Bool) (step : PlanStep × Nat) : Option RunError :=
  match step.1.result with
  | .unresolved error => some error
  | result => if continueOnError then none else stepError result

/-- The state after some steps, and that the loop went on after each but the last. -/
structure Ran (continueOnError : Bool) (cancelAt : Option Nat) (ran : List (PlanStep × Nat))
    (st : PlanState) : Prop where
  executed : st.executed = numbers ran
  failFast : st.failFast = ran.getLast?.bind (haltError continueOnError)
  firstError : st.firstError = ran.findSome? fun step => stepError step.1.result
  going : ∀ before step after, ran = before ++ step :: after →
    isCancelled cancelAt before.length = false ∧
      (after ≠ [] → haltError continueOnError step = none)

theorem ran_nil : Ran c cancelAt [] ⟨[], none, none⟩ where
  executed := rfl
  failFast := rfl
  firstError := rfl
  going := fun before step after h => by simp at h

theorem Ran.afterStep (h : Ran c cancelAt ran st) (hfail : st.failFast = none)
    (hcancel : isCancelled cancelAt ran.length = false) (step : PlanStep × Nat) :
    Ran c cancelAt (ran ++ [step]) (st.afterStep c step) where
  executed := by
    have hexec : (st.afterStep c step).executed = st.executed ++ [step.2 + 1] := by
      unfold PlanState.afterStep
      split
      · rfl
      · split
        · rfl
        · dsimp only
          split <;> rfl
    rw [hexec, h.executed, numbers, numbers, List.map_append, List.map_singleton]
  failFast := by
    rw [List.getLast?_append, List.getLast?_singleton, Option.some_or, Option.bind_some]
    unfold PlanState.afterStep haltError
    split
    · rfl
    · split
      · next hnone => simp [hnone, hfail]
      · next error herror => cases c <;> simp [herror, hfail]
  firstError := by
    rw [List.findSome?_append, ← h.firstError, List.findSome?_singleton]
    unfold PlanState.afterStep
    split
    · next hresult => simp [hresult, stepError]
    · split
      · next hnone => simp [hnone]
      · next error herror => cases c <;> simp [herror]
  going := by
    intro before x after heq
    cases List.eq_nil_or_concat after with
    | inl hnil =>
      subst hnil
      obtain ⟨rfl, hx⟩ := List.append_inj' heq rfl
      exact ⟨hcancel, fun hne => absurd rfl hne⟩
    | inr hconcat =>
      obtain ⟨after, y, rfl⟩ := hconcat
      have heq' : ran ++ [step] = (before ++ x :: after) ++ [y] := by simpa using heq
      obtain ⟨hran, -⟩ := List.append_inj' heq' rfl
      refine ⟨(h.going before x after hran).1, fun _ => ?_⟩
      cases after with
      | cons z after => exact (h.going before x (z :: after) hran).2 (List.cons_ne_nil _ _)
      | nil =>
        rw [h.failFast, hran, List.getLast?_append] at hfail
        exact hfail

/-- The loop runs the first steps of the list, until one of them or the signal ends it. -/
theorem Ran.runSteps (h : Ran c cancelAt ran st) (l : List (PlanStep × Nat)) :
    ∃ more rest, l = more ++ rest ∧ Ran c cancelAt (ran ++ more) (runSteps c cancelAt l st) ∧
      (rest ≠ [] → (runSteps c cancelAt l st).failFast ≠ none ∨
        isCancelled cancelAt (ran ++ more).length = true) := by
  induction l generalizing ran st with
  | nil => exact ⟨[], [], rfl, by rwa [List.append_nil], fun hne => absurd rfl hne⟩
  | cons step l ih =>
    rw [Shellflow.runSteps]
    have hlength : st.executed.length = ran.length := by
      rw [h.executed, numbers, List.length_map]
    by_cases hfail : st.failFast.isSome = true
    · rw [if_pos hfail]
      refine ⟨[], step :: l, rfl, by rwa [List.append_nil], fun _ => .inl ?_⟩
      exact Option.isSome_iff_ne_none.mp hfail
    · rw [if_neg hfail, hlength]
      rw [Option.not_isSome_iff_eq_none] at hfail
      by_cases hcancel : isCancelled cancelAt ran.length = true
      · rw [if_pos hcancel]
        refine ⟨[], step :: l, rfl, by rwa [List.append_nil], fun _ => .inr ?_⟩
        rwa [List.append_nil]
      · rw [if_neg hcancel]
        rw [Bool.not_eq_true] at hcancel
        obtain ⟨more, rest, rfl, hran, hstop⟩ := ih (h.afterStep hfail hcancel step)
        have hmore : ran ++ step :: more = ran ++ [step] ++ more := by simp
        exact ⟨step :: more, rest, rfl, hmore ▸ hran, hmore ▸ hstop⟩

/-- The end of the loop: its steps are a first part of the selected ones, and it stopped for a
reason when steps are left. -/
structure Finished (continueOnError : Bool) (cancelAt : Option Nat)
    (selected ran rest : List (PlanStep × Nat)) (st : PlanState) : Prop where
  split : selected = ran ++ rest
  trace : Ran continueOnError cancelAt ran st
  stopped : rest ≠ [] → st.failFast ≠ none ∨ isCancelled cancelAt ran.length = true

theorem finished_runSteps (c : Bool) (cancelAt : Option Nat) (selected : List (PlanStep × Nat)) :
    ∃ ran rest, Finished c cancelAt selected ran rest
      (runSteps c cancelAt selected ⟨[], none, none⟩) := by
  have hnil : Ran c cancelAt [] ⟨[], none, none⟩ := ran_nil
  obtain ⟨ran, rest, hsplit, hran, hstop⟩ := hnil.runSteps selected
  exact ⟨ran, rest, hsplit, hran, hstop⟩

variable {rest : List (PlanStep × Nat)} {before after : List (PlanStep × Nat)}
  {step : PlanStep × Nat}

theorem haltError_eq_none (h : Resolves step) : haltError true step = none := by
  unfold haltError
  split
  · next error herror => exact absurd herror (h error)
  · rfl

theorem haltError_false (step : PlanStep × Nat) : haltError false step = errorOf step := by
  unfold haltError errorOf
  split
  · rfl
  · rfl

/-- A step that ends the loop failed. -/
theorem haltError_none_of_errorOf (h : errorOf step = none) : haltError c step = none := by
  unfold errorOf at h
  unfold haltError
  split at h
  · cases h
  · cases c
    · exact h
    · rfl

theorem stepError_none_of_errorOf (h : errorOf step = none) : stepError step.1.result = none := by
  unfold errorOf at h
  split at h
  · cases h
  · exact h

/-- A run whose steps up to here do not halt, before the signal is set, comes to the next step. -/
theorem Finished.reaches (h : Finished c cancelAt selected ran rest st)
    (hsplit : selected = before ++ step :: after)
    (hgoing : ∀ earlier ∈ before, haltError c earlier = none)
    (hcancel : isCancelled cancelAt (min before.length ran.length) = false) :
    ∃ post, ran = before ++ step :: post := by
  have hran : ran <+: selected := ⟨rest, h.split.symm⟩
  have hstep : before ++ [step] <+: selected := ⟨after, by rw [hsplit]; simp⟩
  cases List.prefix_or_prefix_of_prefix hstep hran with
  | inl hreached =>
    obtain ⟨post, hpost⟩ := hreached
    exact ⟨post, by rw [← hpost]; simp⟩
  | inr hshort =>
    cases List.prefix_concat_iff.mp hshort with
    | inl heq => exact ⟨[], heq⟩
    | inr hbefore =>
      have hne : rest ≠ [] := by
        rintro rfl
        have hlen := hbefore.length_le
        have hall := congrArg List.length (h.split.symm.trans hsplit)
        rw [List.append_nil, List.length_append, List.length_cons] at hall
        omega
      rw [Nat.min_eq_right hbefore.length_le] at hcancel
      rcases h.stopped hne with hfail | hsignal
      · exfalso
        rw [h.trace.failFast] at hfail
        cases hlast : ran.getLast? with
        | none => exact hfail (by rw [hlast]; rfl)
        | some last =>
          rw [hlast, Option.bind_some] at hfail
          exact hfail (hgoing last (hbefore.subset (List.mem_of_getLast? hlast)))
      · rw [hcancel] at hsignal
        cases hsignal

/-- The loop ends with a step that halts it. -/
theorem Finished.halts (h : Finished c cancelAt selected ran rest st) {post : List (PlanStep × Nat)}
    (hran : ran = before ++ step :: post) {error : RunError} (herror : haltError c step = some error) :
    post = [] := by
  by_contra hne
  have hnone := (h.trace.going before step post hran).2 hne
  rw [herror] at hnone
  cases hnone

theorem numbers_prefix {l l' : List (PlanStep × Nat)} (h : l <+: l') : numbers l <+: numbers l' :=
  h.map _

theorem Finished.length (h : Finished c cancelAt selected ran rest st) :
    st.executed.length = ran.length := by
  rw [h.trace.executed, numbers, List.length_map]

theorem finish_executed (total : Nat) : (st.finish cancelAt total).executed = st.executed := by
  unfold PlanState.finish
  split
  · rfl
  · split <;> rfl

theorem finish_outcome (hcancel : isCancelled cancelAt st.executed.length = false) (total : Nat) :
    (st.finish cancelAt total).outcome =
      match st.failFast.or st.firstError with
      | some error => .failed error
      | none => .success := by
  rw [PlanState.finish, hcancel, if_neg (by decide)]
  split <;> rfl

theorem finish_success (total : Nat) :
    (st.finish cancelAt total).outcome = .success ↔
      isCancelled cancelAt st.executed.length = false ∧ st.failFast = none ∧ st.firstError = none := by
  by_cases hcancel : isCancelled cancelAt st.executed.length = true
  · rw [PlanState.finish, if_pos hcancel, hcancel]
    simp
  · rw [Bool.not_eq_true] at hcancel
    rw [finish_outcome hcancel, ← Option.or_eq_none_iff]
    cases st.failFast.or st.firstError <;> simp [hcancel]

theorem endsWell_of_errorOf (h : errorOf step = none)
    (hhosts : ∀ outcomes, step.1.result = .hosts outcomes → ∀ host ∈ outcomes, host.2 ≠ .cancelled) :
    EndsWell step := by
  unfold errorOf at h
  cases hresult : step.1.result with
  | unresolved error => simp [hresult] at h
  | broke => simp [hresult, stepError] at h
  | hosts outcomes =>
    rw [hresult] at h
    refine ⟨outcomes, hresult, fun host hhost => ?_⟩
    have hnone := List.findSome?_eq_none_iff.mp h host hhost
    have hcancel := hhosts outcomes hresult host hhost
    cases hout : host.2 with
    | ok => exact .inl rfl
    | skipped => exact .inr rfl
    | failed error => simp [hout] at hnone
    | timedOut => simp [hout] at hnone
    | cancelled => exact absurd hout hcancel

theorem errorOf_of_endsWell (h : EndsWell step) : errorOf step = none := by
  obtain ⟨outcomes, hresult, hwell⟩ := h
  rw [errorOf, hresult]
  refine List.findSome?_eq_none_iff.mpr fun host hhost => ?_
  rcases hwell host hhost with hok | hskip
  · simp [hok]
  · simp [hskip]

/-- A run without an error and without the signal ran every step. -/
theorem Finished.complete (h : Finished c cancelAt selected ran rest st) (hfail : st.failFast = none)
    (hcancel : isCancelled cancelAt ran.length = false) : ran = selected := by
  have hrest : rest = [] := by
    by_contra hne
    rcases h.stopped hne with hsome | hsignal
    · exact hsome hfail
    · rw [hcancel] at hsignal
      cases hsignal
  rw [h.split, hrest, List.append_nil]

/-- No step that ran has an error when the run remembers none. -/
theorem Finished.errorOf_eq_none (h : Finished c cancelAt selected ran rest st)
    (hfail : st.failFast = none) (hfirst : st.firstError = none) : ∀ x ∈ ran, errorOf x = none := by
  intro x hx
  obtain ⟨before, after, hran⟩ := List.append_of_mem hx
  have hstep : stepError x.1.result = none := by
    rw [h.trace.firstError, List.findSome?_eq_none_iff] at hfirst
    exact hfirst x hx
  have hhalt : haltError c x = none := by
    by_cases hafter : after = []
    · subst hafter
      rw [h.trace.failFast, hran, List.getLast?_append] at hfail
      exact hfail
    · exact (h.trace.going before x after hran).2 hafter
  unfold haltError at hhalt
  unfold errorOf
  split at hhalt
  · cases hhalt
  · exact hstep

theorem Finished.success_iff (h : Finished c cancelAt selected ran rest st)
    (hsignal : CancelledBySignal cancelAt selected) (total : Nat) :
    (st.finish cancelAt total).outcome = .success ↔
      isCancelled cancelAt st.executed.length = false ∧ st.executed = numbers selected ∧
        ∀ x ∈ selected, EndsWell x := by
  rw [finish_success]
  refine and_congr_right fun hcancel => ?_
  rw [h.length] at hcancel
  constructor
  · rintro ⟨hfail, hfirst⟩
    have hall := h.complete hfail hcancel
    refine ⟨by rw [h.trace.executed, hall], fun x hx => ?_⟩
    have herror := h.errorOf_eq_none hfail hfirst x (hall ▸ hx)
    refine endsWell_of_errorOf herror fun outcomes hresult host hhost hhost' => ?_
    obtain ⟨before, after, hsplit⟩ := List.append_of_mem hx
    have hset := hsignal before x after outcomes hsplit hresult ⟨host, hhost, hhost'⟩
    have hle : before.length + 1 ≤ ran.length := by
      rw [hall, hsplit, List.length_append, List.length_cons]
      omega
    rw [isCancelled_mono hle hset] at hcancel
    cases hcancel
  · rintro ⟨hexec, hwell⟩
    have hlen : ran.length = selected.length := by
      have := congrArg List.length hexec
      rwa [h.length, numbers, List.length_map] at this
    have hrest : rest = [] := by
      have := congrArg List.length h.split
      rw [List.length_append] at this
      exact List.length_eq_zero_iff.mp (by omega)
    have hran : ∀ x ∈ ran, errorOf x = none := by
      intro x hx
      refine errorOf_of_endsWell (hwell x ?_)
      rw [h.split]
      exact List.mem_append_left rest hx
    constructor
    · rw [h.trace.failFast]
      cases hlast : ran.getLast? with
      | none => rfl
      | some last =>
        exact haltError_none_of_errorOf (hran last (List.mem_of_getLast? hlast))
    · rw [h.trace.firstError, List.findSome?_eq_none_iff]
      exact fun x hx => stepError_none_of_errorOf (hran x hx)

/-- Without `--continue-on-error` the run ends with the first failing step, at the latest. -/
theorem Finished.stops (h : Finished false cancelAt selected ran rest st)
    (hsplit : selected = before ++ step :: after) (herror : (errorOf step).isSome) :
    st.executed <+: numbers (before ++ [step]) := by
  obtain ⟨error, herror⟩ := Option.isSome_iff_exists.mp herror
  rw [← haltError_false] at herror
  rw [h.trace.executed]
  apply numbers_prefix
  have hran : ran <+: selected := ⟨rest, h.split.symm⟩
  have hstep : before ++ [step] <+: selected := ⟨after, by rw [hsplit]; simp⟩
  cases List.prefix_or_prefix_of_prefix hran hstep with
  | inl hshort => exact hshort
  | inr hlong =>
    obtain ⟨post, hpost⟩ := hlong
    have hran : ran = before ++ step :: post := by rw [← hpost]; simp
    rw [hran, h.halts hran herror]

theorem Finished.continues (h : Finished true cancelAt selected ran rest st)
    (hsplit : selected = before ++ step :: after) (hbefore : ∀ earlier ∈ before, Resolves earlier)
    (hcancel : isCancelled cancelAt before.length = false) :
    ∃ post, ran = before ++ step :: post := by
  refine h.reaches hsplit (fun earlier hmem => haltError_eq_none (hbefore earlier hmem)) ?_
  by_contra hset
  rw [Bool.not_eq_false] at hset
  rw [isCancelled_mono (Nat.min_le_left _ _) hset] at hcancel
  cases hcancel

/-- What the run ends with when the step that halted it is its last one. -/
theorem Finished.failed_of_halt (h : Finished c cancelAt selected ran rest st)
    (hran : ran = before ++ [step]) {error : RunError} (herror : haltError c step = some error)
    (hcancel : isCancelled cancelAt st.executed.length = false) (total : Nat) :
    (st.finish cancelAt total).outcome = .failed error := by
  have hfail : st.failFast = some error := by
    rw [h.trace.failFast, hran, List.getLast?_append]
    exact herror
  rw [finish_outcome hcancel, hfail, Option.some_or]

/-- A step that halts the loop although an earlier one failed did not resolve. -/
theorem unresolved_of_haltError {error : RunError} (h : haltError true step = some error) :
    step.1.result = .unresolved error := by
  unfold haltError at h
  split at h
  · next herror =>
    rw [herror]
    exact congrArg _ (Option.some_inj.mp h)
  · cases h

theorem errorOf_of_haltError {error : RunError} (h : haltError c step = some error) :
    errorOf step = some error := by
  unfold haltError at h
  unfold errorOf
  split at h
  · exact h
  · cases c
    · exact h
    · cases h

/-- A failing step that does not halt the loop has an error that the run goes on with. -/
theorem continue_of_haltError {error : RunError} (h : errorOf step = some error)
    (hnone : haltError c step = none) : c = true ∧ stepError step.1.result = some error := by
  cases c with
  | false =>
    rw [haltError_false, h] at hnone
    cases hnone
  | true =>
    refine ⟨rfl, ?_⟩
    unfold errorOf at h
    split at h
    · next _ hresult =>
      rw [haltError, hresult] at hnone
      cases hnone
    · exact h

theorem resolves_of_haltError (h : haltError c step = none) : Resolves step := by
  intro error hresult
  rw [haltError, hresult] at h
  cases h

/-- The first error is what a run without a halting step ends with. -/
theorem Finished.failed_of_first (h : Finished c cancelAt selected ran rest st)
    {post : List (PlanStep × Nat)} (hran : ran = before ++ step :: post) (hfail : st.failFast = none)
    (hbefore : ∀ earlier ∈ before, errorOf earlier = none) {error : RunError}
    (herror : stepError step.1.result = some error)
    (hcancel : isCancelled cancelAt st.executed.length = false) (total : Nat) :
    (st.finish cancelAt total).outcome = .failed error := by
  have hfirst : st.firstError = some error := by
    have hnone : (before.findSome? fun x => stepError x.1.result) = none :=
      List.findSome?_eq_none_iff.mpr fun x hx => stepError_none_of_errorOf (hbefore x hx)
    rw [h.trace.firstError, hran, List.findSome?_append, hnone, Option.none_or,
      List.findSome?_cons, herror]
  rw [finish_outcome hcancel, hfail, hfirst, Option.none_or]

theorem Finished.first_iff (h : Finished c cancelAt selected ran rest st) (total : Nat) :
    (isCancelled cancelAt st.executed.length = false → ∀ before step after error,
      selected = before ++ step :: after → (∀ earlier ∈ before, errorOf earlier = none) →
      errorOf step = some error → (st.finish cancelAt total).outcome = .failed error) ↔
    LateErrorAgrees c cancelAt selected := by
  constructor
  · rintro hfirst rfl before step after error hsplit hresult hbefore hcancel earliest hearliest
    have hcancel' : isCancelled cancelAt before.length = false := by
      by_contra hset
      rw [Bool.not_eq_false] at hset
      rw [isCancelled_mono (Nat.le_succ _) hset] at hcancel
      cases hcancel
    obtain ⟨post, hran⟩ := h.continues hsplit hbefore hcancel'
    have hhalt : haltError true step = some error := by rw [haltError, hresult]
    rw [h.halts hran hhalt] at hran
    have hend : isCancelled cancelAt st.executed.length = false := by
      rw [h.length, hran, List.length_append]
      exact hcancel
    obtain ⟨pre, x, mid, hpre, hx, hnone⟩ := List.findSome?_eq_some_iff.mp hearliest
    have hout := hfirst hend pre x (mid ++ step :: after) earliest
      (by rw [hsplit, hpre]; simp) hnone hx
    rw [h.failed_of_halt hran hhalt hend, RunOutcome.failed.injEq] at hout
    exact hout.symm
  · intro hagrees hend before step after error hsplit hbefore herror
    have hend' := hend
    rw [h.length] at hend'
    obtain ⟨post, hran⟩ := h.reaches hsplit
      (fun earlier hmem => haltError_none_of_errorOf (hbefore earlier hmem)) (by
        by_contra hset
        rw [Bool.not_eq_false] at hset
        rw [isCancelled_mono (Nat.min_le_right _ _) hset] at hend'
        cases hend')
    cases hhalt : haltError c step with
    | some error' =>
      rw [h.halts hran hhalt] at hran
      have heq := (errorOf_of_haltError hhalt).symm.trans herror
      rw [h.failed_of_halt hran hhalt hend, Option.some_inj.mp heq]
    | none =>
      obtain ⟨rfl, hstep⟩ := continue_of_haltError herror hhalt
      cases List.eq_nil_or_concat post with
      | inl hnil =>
        have hfail : st.failFast = none := by
          rw [h.trace.failFast, hran, hnil, List.getLast?_append]
          exact hhalt
        exact h.failed_of_first hran hfail hbefore hstep hend total
      | inr hconcat =>
        obtain ⟨mid, last, rfl⟩ := hconcat
        have hran' : ran = (before ++ step :: mid) ++ [last] := by rw [hran]; simp
        cases hlast : haltError true last with
        | none =>
          have hfail : st.failFast = none := by
            rw [h.trace.failFast, hran', List.getLast?_append]
            exact hlast
          exact h.failed_of_first hran hfail hbefore hstep hend total
        | some error' =>
          -- the step that did not resolve comes last, so its error is the one returned
          have hearlier : ∀ x ∈ before ++ step :: mid, Resolves x := by
            intro x hx
            obtain ⟨pre, tail, hpre⟩ := List.append_of_mem hx
            have hx' : ran = pre ++ x :: (tail ++ [last]) := by rw [hran', hpre]; simp
            exact resolves_of_haltError ((h.trace.going pre x _ hx').2 (by simp))
          have hnone : before.findSome? errorOf = none :=
            List.findSome?_eq_none_iff.mpr hbefore
          have hagree := hagrees rfl (before ++ step :: mid) last rest error'
            (by rw [h.split, hran']; simp) (unresolved_of_haltError hlast) hearlier
            (by rwa [hran', List.length_append] at hend') error (by
              rw [List.findSome?_append, hnone, Option.none_or, List.findSome?_cons, herror])
          rw [h.failed_of_halt hran' hlast hend, hagree]

/-- A run meets the law exactly when no late resolution error takes the place of the error of an
earlier step. -/
theorem executePlan_law_iff (flags : RunFlags) (plan : List PlanStep) (cancelAt : Option Nat)
    (hsignal : CancelledBySignal cancelAt (selectedSteps flags plan)) :
    RunLaw flags.continueOnError cancelAt (selectedSteps flags plan)
        (executePlan flags plan true cancelAt) ↔
      LateErrorAgrees flags.continueOnError cancelAt (selectedSteps flags plan) := by
  obtain ⟨ran, rest, h⟩ := finished_runSteps flags.continueOnError cancelAt (selectedSteps flags plan)
  have hrun : executePlan flags plan true cancelAt =
      (runSteps flags.continueOnError cancelAt (selectedSteps flags plan) ⟨[], none, none⟩).finish
        cancelAt plan.length := rfl
  rw [hrun]
  constructor
  · intro hlaw
    have hfirst := hlaw.first
    rw [finish_executed] at hfirst
    exact (h.first_iff plan.length).mp hfirst
  · intro hagrees
    refine ⟨?_, ?_, ?_, ?_⟩
    · rw [finish_executed]
      exact h.success_iff hsignal plan.length
    · intro hc before step after hsplit herror
      rw [finish_executed]
      rw [hc] at h ⊢
      exact h.stops hsplit herror
    · intro hc before step after hsplit hbefore hcancel
      rw [finish_executed, h.trace.executed]
      rw [hc] at h
      obtain ⟨post, hran⟩ := h.continues hsplit hbefore hcancel
      exact numbers_prefix ⟨post, by rw [hran]; simp⟩
    · rw [finish_executed]
      exact (h.first_iff plan.length).mpr hagrees

end Run

section Example

/-- Two steps on one host; the first one fails. -/
def twoSteps (second : SingleStep) : List PlanStep :=
  [⟨some "build", .hosts [("web", .failed .script)]⟩, ⟨some "deploy", second⟩]

/-- Every step runs, also after a failure. -/
def goOn : RunFlags := ⟨[], [], true⟩

theorem twoSteps_signal (second : SingleStep) (h : ∀ outcomes, second ≠ .hosts outcomes) :
    CancelledBySignal none (selectedSteps goOn (twoSteps second)) := by
  have hselected : selectedSteps goOn (twoSteps second) =
      [(⟨some "build", .hosts [("web", .failed .script)]⟩, 0), (⟨some "deploy", second⟩, 1)] := rfl
  rintro before step after outcomes hsplit hresult ⟨host, hhost, hcancelled⟩
  have hstep : step ∈ selectedSteps goOn (twoSteps second) := by rw [hsplit]; simp
  rw [hselected] at hstep
  cases hstep with
  | head =>
    cases hresult
    rw [List.mem_singleton.mp hhost] at hcancelled
    cases hcancelled
  | tail _ hstep =>
    rw [List.mem_singleton.mp hstep] at hresult
    exact absurd hresult (h outcomes)

end Example

theorem executePlan_law_iff_broke :
    RunLaw true none (selectedSteps goOn (twoSteps .broke)) (executePlan goOn (twoSteps .broke) true none) ↔
      LateErrorAgrees true none (selectedSteps goOn (twoSteps .broke)) :=
  executePlan_law_iff goOn (twoSteps .broke) none (twoSteps_signal .broke nofun)

/-- The error of a later step that did not resolve is returned for that of the first failing one. -/
theorem executePlan_returns_a_later_error :
    CancelledBySignal none (selectedSteps goOn (twoSteps (.unresolved .plan))) ∧
      ¬ RunLaw true none (selectedSteps goOn (twoSteps (.unresolved .plan)))
        (executePlan goOn (twoSteps (.unresolved .plan)) true none) := by
  refine ⟨twoSteps_signal (.unresolved .plan) nofun, fun hlaw => ?_⟩
  have hout := hlaw.first rfl [] (⟨some "build", .hosts [("web", .failed .script)]⟩, 0)
    [(⟨some "deploy", .unresolved .plan⟩, 1)] .script rfl (fun _ h => absurd h List.not_mem_nil) rfl
  revert hout
  decide

end Shellflow
