import Shellflow.Executor.MuxyAttempt

/-! Which ends of a step are no error. The loop polls the cancel signal of the run before each
message; an end of the session that the server reports without an exit is excused as cancelled as
well. -/
namespace Shellflow.Excused

/-- A step and the cancel signal of its run. -/
structure Watched where
  run : SessionRun
  cancelled : Bool

inductive Turn
  | signal
  | moment (m : Moment)

section Run
variable (peer : Peer) (params : StepParams)

/-- The signal is never taken back, and the poll answers what it is. -/
def turn (w : Watched) : Turn → Watched
  | .signal => { w with cancelled := true }
  | .moment .cancel =>
    if w.cancelled then { w with run := stepTurn peer params w.run .cancel } else w
  | .moment m => { w with run := stepTurn peer params w.run m }

def watch (answers : Answers) (turns : List Turn) : Watched :=
  turns.foldl (turn peer params) ⟨startStep peer params answers, false⟩

end Run

/-- The server told that the script exited with 0, or with the code by which its guard skips it. -/
def CameThrough (params : StepParams) (log : List SessionEvent) : Prop :=
  .sawEnd (.exited 0) ∈ log ∨
    params.hasGuard = true ∧ .sawEnd (.exited guardSkipExit) ∈ log

section Outcome
variable (peer : Peer) (params : StepParams) (policy : TransportPolicy)
  (explainExit : Option ExplainExit)

/-- The outcome of the host, once it is decided. -/
def hostOutcome (r : SessionRun) : Option HostOutcome :=
  match r.phase with
  | .done stepEnd =>
    match answerEnd policy peer.destination explainExit stepEnd with
    | .done outcome => some outcome
    | .fallback => none
  | _ => none

/-- Cancelled is what a cancelled run decides, and every other end of a script that did not come
through fails the step. -/
structure Accounted (w : Watched) : Prop where
  cancelled : hostOutcome peer policy explainExit w.run = some .cancelled → w.cancelled = true
  fails : ∀ outcome, hostOutcome peer policy explainExit w.run = some outcome →
    outcome ≠ .cancelled → ¬ CameThrough params w.run.log →
      ∀ hosts, (peer.destination, outcome) ∈ hosts → stepErrorIfFailed hosts ≠ none

/-- The server reports to the loop that the session was ended, and nobody cancelled the run. -/
def EndedElsewhere (w : Watched) (t : Turn) : Prop :=
  w.cancelled = false ∧ (∃ session channel state, w.run.phase = .streaming session channel state) ∧
    ∃ queued reconnection, t = .moment (.recv (.ended .ended) queued reconnection)

end Outcome

section Log
variable {params : StepParams} {r : SessionRun} {event : SessionEvent}

theorem mem_record {other : SessionEvent} (h : event ∈ r.log) : event ∈ (r.record other).log :=
  List.mem_append_left _ h

theorem mem_request {client : Nat} {req : Request} (h : event ∈ r.log) :
    event ∈ (r.request client req).log := mem_record h

theorem mem_cleanup {session : Option Nat} (h : event ∈ r.log) :
    event ∈ (cleanup params session r).log := by
  cases session with
  | none => exact mem_request h
  | some session =>
    rw [cleanup]
    split
    · exact mem_request (mem_request h)
    · exact mem_request h

theorem mem_conclude {session : Nat} {result : StepEnd} (h : event ∈ r.log) :
    event ∈ (conclude params session r result).log := by
  rw [conclude]
  split
  · exact h
  · exact mem_cleanup h

end Log

section Invariant
variable {peer : Peer} {params : StepParams} {policy : TransportPolicy}
  {explainExit : Option ExplainExit}

/-- What stands behind the end of a step. -/
def Justified (params : StepParams) (cancelled : Bool) (log : List SessionEvent) : StepEnd → Prop
  | .ok ⟨.cancelled, _, _⟩ => cancelled = true
  | .ok ⟨.ok, _, _⟩ | .ok ⟨.skipped, _, _⟩ => CameThrough params log
  | .ok _ | .error _ => True

/-- The invariant: a session is ended for a cancel only under the signal. -/
def Sound (params : StepParams) (cancelled : Bool) (r : SessionRun) : Prop :=
  match r.phase with
  | .starting | .streaming _ _ _ => True
  | .ending _ _ why => why = .cancel → cancelled = true
  | .done stepEnd => Justified params cancelled r.log stepEnd

theorem Sound.congr {cancelled : Bool} {r r' : SessionRun} (h : Sound params cancelled r)
    (hphase : r'.phase = r.phase) (hlog : r'.log = r.log) : Sound params cancelled r' := by
  rw [Sound, hphase, hlog]
  exact h

theorem sound_conclude {cancelled : Bool} {r : SessionRun} {session : Nat} {result : StepEnd}
    (h : Justified params cancelled (conclude params session r result).log result) :
    Sound params cancelled (conclude params session r result) := by
  have hphase : (conclude params session r result).phase = .done result := by rw [conclude]
  rw [Sound, hphase]
  exact h

theorem sound_lostStep {cancelled : Bool} {r : SessionRun} {session channel : Nat}
    {error : MuxyError} : Sound params cancelled (lostStep params r session channel error) :=
  sound_conclude trivial

/-- The reasons an exit is mapped by stand in the record. -/
theorem justified_mapExitReason {cancelled : Bool} {log : List SessionEvent} {reason : ExitReason}
    {session : Nat} (hseen : .sawEnd reason ∈ log) (hended : reason = .ended → cancelled = true) :
    Justified params cancelled log (.ok ⟨mapExitReason reason params.hasGuard, session, false⟩) := by
  cases reason with
  | exited code =>
    by_cases hzero : code = 0
    · rw [mapExitReason, if_pos hzero]
      exact Or.inl (hzero ▸ hseen)
    · rw [mapExitReason, if_neg hzero]
      by_cases hskip : code = guardSkipExit ∧ params.hasGuard = true
      · rw [if_pos hskip]
        exact Or.inr ⟨hskip.2, hskip.1 ▸ hseen⟩
      · rw [if_neg hskip]
        trivial
  | ended => exact hended rfl
  | signaled signum => trivial
  | serverStopped => trivial
  | unrecognized n => trivial

theorem sound_handleMsg {cancelled : Bool} {r : SessionRun} {session channel : Nat}
    {state : LoopState} {msg : PumpMsg String} {queued : List (PumpMsg String)}
    {reconnection : Reconnection} (hphase : r.phase = .streaming session channel state)
    (hended : msg = .ended .ended → cancelled = true) :
    Sound params cancelled
      (handleMsg peer params r session channel state msg queued reconnection) := by
  have hstreaming : Sound params cancelled r := by
    rw [Sound, hphase]
    trivial
  cases msg with
  | lines lines => exact hstreaming.congr rfl rfl
  | budgetExceeded =>
    rw [handleMsg]
    split
    · exact hstreaming
    · trivial
  | tuiRedraw => exact fun h => by cases h
  | ended reason =>
    refine sound_conclude (justified_mapExitReason (mem_conclude ?_) fun h => hended (by rw [h]))
    exact mem_record (List.mem_append_right _ List.mem_cons_self)
  | disconnected =>
    rw [handleMsg]
    split
    · exact sound_lostStep
    · split
      · exact sound_lostStep
      · trivial

theorem sound_streamTurn {cancelled : Bool} {r : SessionRun} {session channel : Nat}
    {state : LoopState} {moment : Moment} (hphase : r.phase = .streaming session channel state)
    (hcancel : moment = .cancel → cancelled = true)
    (hended : ∀ queued reconnection, moment = .recv (.ended .ended) queued reconnection →
      cancelled = true) :
    Sound params cancelled (streamTurn peer params r session channel state moment) := by
  have hstreaming : Sound params cancelled r := by
    rw [Sound, hphase]
    trivial
  cases moment with
  | cancel =>
    have hset := hcancel rfl
    rw [streamTurn, cancelOutcome]
    split
    · exact sound_conclude hset
    · exact fun _ => hset
  | deadline =>
    rw [streamTurn]
    split
    · exact fun h => by cases h
    · exact hstreaming
  | recv msg queued reconnection =>
    exact sound_handleMsg hphase fun h => hended queued reconnection (by rw [h])
  | closed => exact sound_lostStep
  | drop => exact hstreaming
  | graceOver => exact hstreaming
  | idle => exact hstreaming

theorem sound_afterWait {cancelled : Bool} {r : SessionRun} {session channel : Nat} {why : Why}
    {found : WaitEnd} (h : why = .cancel → cancelled = true) :
    Sound params cancelled (afterWait peer params r session channel why found) := by
  cases why with
  | tui => exact sound_conclude trivial
  | timeout => exact sound_conclude trivial
  | cancel => exact sound_conclude (h rfl)

/-- One turn of the step, the cases by its phase. -/
theorem sound_stepTurn {cancelled : Bool} {r : SessionRun} {moment : Moment}
    (h : Sound params cancelled r) (hcancel : moment = .cancel → cancelled = true)
    (hended : ∀ session channel state, r.phase = .streaming session channel state →
      ∀ queued reconnection, moment = .recv (.ended .ended) queued reconnection →
        cancelled = true) :
    Sound params cancelled (stepTurn peer params r moment) := by
  by_cases hdrop : moment = .drop
  · rw [hdrop]
    exact h.congr rfl rfl
  rw [stepTurn_of_ne_drop hdrop]
  cases hphase : r.phase with
  | starting => exact h
  | streaming session channel state =>
    exact sound_streamTurn hphase hcancel (hended session channel state hphase)
  | ending session channel why =>
    have hwhy : why = .cancel → cancelled = true := by
      rw [Sound, hphase] at h
      exact h
    have hkeep := phase_waitForEnd r moment
    simp only [waitTurn]
    cases hwait : waitForEnd r moment with
    | mk r' found =>
      rw [hwait, hphase] at hkeep
      cases found with
      | none =>
        rw [Sound, hkeep]
        exact hwhy
      | some found => exact sound_afterWait hwhy
  | done result => exact h

end Invariant

section Runs
variable (peer : Peer) (params : StepParams) (policy : TransportPolicy)
  (explainExit : Option ExplainExit)

theorem sound_startStep (answers : Answers) (cancelled : Bool) :
    Sound params cancelled (startStep peer params answers) := by
  rw [startStep]
  cases plannedPayload peer params with
  | error error => trivial
  | ok payload =>
    cases answers.payloadWritten with
    | some err => trivial
    | none =>
      cases answers.session with
      | error err => trivial
      | ok session =>
        simp only [attachStep]
        cases answers.channel with
        | error err => exact sound_conclude trivial
        | ok channel =>
          cases answers.typed with
          | some err => exact sound_conclude trivial
          | none => trivial

variable {peer params policy explainExit}

theorem Sound.mono {r : SessionRun} (h : Sound params false r) : Sound params true r := by
  unfold Sound at h ⊢
  split at h
  · trivial
  · trivial
  · exact fun _ => rfl
  · unfold Justified at h ⊢
    split at h
    · rfl
    · exact h
    · exact h
    · trivial
    · trivial

theorem sound_turn {w : Watched} {t : Turn} (h : Sound params w.cancelled w.run)
    (hended : ¬ EndedElsewhere w t) :
    Sound params (turn peer params w t).cancelled (turn peer params w t).run := by
  cases t with
  | signal =>
    cases hcancelled : w.cancelled with
    | false =>
      rw [hcancelled] at h
      exact h.mono
    | true =>
      rw [hcancelled] at h
      exact h
  | moment m =>
    have hreason : ∀ session channel state, w.run.phase = .streaming session channel state →
        ∀ queued reconnection, m = .recv (.ended .ended) queued reconnection →
          w.cancelled = true := by
      intro session channel state hphase queued reconnection hm
      by_contra hnot
      exact hended ⟨Bool.eq_false_iff.mpr hnot, ⟨session, channel, state, hphase⟩, queued,
        reconnection, by rw [hm]⟩
    by_cases hm : m = .cancel
    · rw [hm, turn]
      split
      · rename_i hset
        exact sound_stepTurn h (fun _ => hset) fun _ _ _ _ _ _ heq => by cases heq
      · exact h
    · have hturn : turn peer params w (.moment m) =
          { w with run := stepTurn peer params w.run m } := by
        cases m with
        | cancel => exact absurd rfl hm
        | drop | deadline | graceOver | idle | closed | recv => rfl
      rw [hturn]
      exact sound_stepTurn h (fun heq => absurd heq hm) hreason

theorem stepErrorIfFailed_ne_none {hosts : List (String × HostOutcome)} {host : String}
    {outcome : HostOutcome} (hmem : (host, outcome) ∈ hosts)
    (hfails : (∃ error, outcome = .failed error) ∨ outcome = .timedOut) :
    stepErrorIfFailed hosts ≠ none := by
  intro hnone
  have hhost := List.findSome?_eq_none_iff.mp hnone _ hmem
  rcases hfails with ⟨error, rfl⟩ | rfl
  · cases hhost
  · cases hhost

theorem accounted_of_sound {w : Watched} (h : Sound params w.cancelled w.run) :
    Accounted peer params policy explainExit w := by
  have hends : ∀ outcome, hostOutcome peer policy explainExit w.run = some outcome →
      (outcome = .cancelled → w.cancelled = true) ∧
      (outcome ≠ .cancelled → ¬ CameThrough params w.run.log →
        (∃ error, outcome = .failed error) ∨ outcome = .timedOut) := by
    intro outcome houtcome
    rw [hostOutcome] at houtcome
    rw [Sound] at h
    cases hphase : w.run.phase with
    | done stepEnd =>
      rw [hphase] at houtcome h
      cases stepEnd with
      | error failure =>
        simp only [answerEnd] at houtcome
        split at houtcome
        · rename_i hanswer
          cases houtcome
          split at hanswer
          · cases hanswer
          · cases hanswer
            exact ⟨(fun h => by cases h), fun _ _ => Or.inl ⟨_, rfl⟩⟩
        · cases houtcome
      | ok result =>
        obtain ⟨found, session, still⟩ := result
        cases found with
        | ok =>
          cases houtcome
          exact ⟨(fun h => by cases h), fun _ hnot => absurd h hnot⟩
        | skipped =>
          cases houtcome
          exact ⟨(fun h => by cases h), fun _ hnot => absurd h hnot⟩
        | failedScript message exit =>
          cases houtcome
          exact ⟨(fun h => by cases h), fun _ _ => Or.inl ⟨_, rfl⟩⟩
        | failedTransport message =>
          cases houtcome
          exact ⟨(fun h => by cases h), fun _ _ => Or.inl ⟨_, rfl⟩⟩
        | timedOut =>
          cases houtcome
          exact ⟨(fun h => by cases h), fun _ _ => Or.inr rfl⟩
        | cancelled =>
          cases houtcome
          exact ⟨fun _ => h, fun hne => absurd rfl hne⟩
    | starting | streaming | ending =>
      rw [hphase] at houtcome
      cases houtcome
  exact ⟨fun houtcome => (hends _ houtcome).1 rfl, fun outcome houtcome hne hnot hosts hmem =>
    stepErrorIfFailed_ne_none hmem ((hends outcome houtcome).2 hne hnot)⟩

/-- The turn itself decides that the step was cancelled. -/
theorem not_accounted_of_ended {w : Watched} {t : Turn} (h : EndedElsewhere w t) :
    ¬ Accounted peer params policy explainExit (turn peer params w t) := by
  obtain ⟨hcancelled, ⟨session, channel, state, hphase⟩, queued, reconnection, rfl⟩ := h
  intro haccounted
  have hturn : turn peer params w (.moment (.recv (.ended .ended) queued reconnection)) =
      ⟨handleMsg peer params w.run session channel state (.ended .ended) queued reconnection,
        w.cancelled⟩ := by
    have hdrop : Moment.recv (.ended .ended) queued reconnection ≠ .drop := nofun
    have hmessage : stepTurn peer params w.run (.recv (.ended .ended) queued reconnection) =
        handleMsg peer params w.run session channel state (.ended .ended) queued reconnection := by
      rw [stepTurn_of_ne_drop hdrop, hphase]
      rfl
    rw [turn, hmessage]
    exact nofun
  rw [hturn] at haccounted
  exact absurd (haccounted.cancelled rfl) (by rw [hcancelled]; exact nofun)

theorem accounted_iff (peer : Peer) (params : StepParams) (policy : TransportPolicy)
    (explainExit : Option ExplainExit) (answers : Answers) (turns : List Turn) :
    (∀ before, before <+: turns →
        Accounted peer params policy explainExit (watch peer params answers before)) ↔
      ∀ before t after, turns = before ++ t :: after →
        ¬ EndedElsewhere (watch peer params answers before) t := by
  have hstep : ∀ before t, watch peer params answers (before ++ [t]) =
      turn peer params (watch peer params answers before) t := by
    intro before t
    rw [watch, List.foldl_append]
    rfl
  constructor
  · rintro hall before t after rfl hended
    have haccounted := hall (before ++ [t]) ⟨after, by rw [List.append_assoc]; rfl⟩
    rw [hstep] at haccounted
    exact not_accounted_of_ended hended haccounted
  · rintro hnone before ⟨after, rfl⟩
    refine accounted_of_sound ?_
    induction before using List.reverseRecOn generalizing after with
    | nil => exact sound_startStep peer params answers false
    | append_singleton before t ih =>
      rw [hstep]
      have hrest := ih (t :: after) fun b u a heq => hnone b u a (by rw [← heq, List.append_assoc]; rfl)
      exact sound_turn hrest (hnone before t after (by rw [List.append_assoc]; rfl))

/-- Another client ends the session, nobody cancels, and the step counts as cancelled. -/
theorem ended_session_excused : ¬ ∀ (peer : Peer) (params : StepParams) (policy : TransportPolicy)
    (explainExit : Option ExplainExit) (answers : Answers) (turns before : List Turn),
    before <+: turns →
      Accounted peer params policy explainExit (watch peer params answers before) := by
  intro hall
  have haccounted := hall ⟨"web1", "/root", true⟩ droppedStep .auto none willingServer
    [.moment (.recv (.ended .ended) [] (.failed (.disconnected "web1")))]
    [.moment (.recv (.ended .ended) [] (.failed (.disconnected "web1")))] (List.prefix_refl _)
  exact absurd (haccounted.cancelled rfl) nofun

end Runs

end Shellflow.Excused
