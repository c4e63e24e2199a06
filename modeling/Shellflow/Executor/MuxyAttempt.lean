import Shellflow.Executor.HelperVerdict
import Shellflow.Muxy.StillRunning

/-! One attempt of a step over muxy. The script starts when the bootstrap line reaches the shell of
the session; an attempt that answers with the fallback makes the caller start it over ssh. A request
that fails may have reached the server all the same: only its acknowledgement was lost. -/
namespace Shellflow

inductive TransportPolicy
  | auto
  | muxy
  | ssh
deriving DecidableEq

inductive MuxyAttempt
  | done (outcome : HostOutcome)
  | fallback
deriving DecidableEq

/-- How the blocking task of an attempt goes: the lock of the connection was poisoned, the task
stops unexpectedly, or it runs the step. -/
inductive TaskFate
  | poisoned
  | stopped
  | runs
deriving DecidableEq

/-- What the server answers, and which of the requests that fail have reached it. -/
structure Network where
  answers : Answers
  reached : Request → Bool

section Attempt
variable (peer : Peer) (params : StepParams) (net : Network) (moments : List Moment)

/-- The answer to a step that ended. -/
def answerEnd (policy : TransportPolicy) (host : String) (explainExit : Option ExplainExit) :
    StepEnd → MuxyAttempt
  | .ok result => .done (mapMuxyOutcome result.outcome host explainExit).outcome
  | .error failure =>
    if failure.session = none ∧ policy = .auto then .fallback else .done (.failed .transport)

def poisonedLock : MuxyFailure := ⟨.request "the muxy connection lock was poisoned", none, false⟩

/-- What the attempt answers, once it does. -/
def attemptStep (policy : TransportPolicy) (explainExit : Option ExplainExit) (fate : TaskFate) :
    Option MuxyAttempt :=
  let host := peer.destination
  match fate with
  | .poisoned => some (answerEnd policy host explainExit (.error poisonedLock))
  | .stopped => some (.done (.failed .transport))
  | .runs =>
    match (Muxy.runStep peer params net.answers moments).phase with
    | .done stepEnd => some (answerEnd policy host explainExit stepEnd)
    | _ => none

/-- What the attempt did with its sessions. -/
def attemptLog (fate : TaskFate) : List SessionEvent :=
  match fate with
  | .poisoned => []
  | .stopped | .runs => (Muxy.runStep peer params net.answers moments).log

/-- The event types the line into the shell of a session, and the line arrives there. -/
def Network.Types (net : Network) : SessionEvent → Prop
  | .request _ _ (.writeInput channel bytes) =>
    net.answers.typed = none ∨ net.reached (.writeInput channel bytes) = true
  | _ => False

def Network.Typed (net : Network) (log : List SessionEvent) : Prop :=
  ∃ event ∈ log, net.Types event

/-- The bootstrap line may have been delivered. -/
def MayHaveStarted (fate : TaskFate) : Prop :=
  net.Typed (attemptLog peer params net moments fate)

/-- The script is not started again over ssh once it may have started. -/
def StartsOnce (policy : TransportPolicy) (explainExit : Option ExplainExit) (fate : TaskFate) :
    Prop :=
  ¬ (MayHaveStarted peer params net moments fate ∧
    attemptStep peer params net moments policy explainExit fate = some .fallback)

/-- The request that types the bootstrap fails after it was delivered. -/
def AckLost : Prop :=
  ∃ payload session channel err, plannedPayload peer params = .ok payload ∧
    net.answers.payloadWritten = none ∧ net.answers.session = .ok session ∧
    net.answers.channel = .ok channel ∧ net.answers.typed = some err ∧
    net.reached (.writeInput channel (bootstrapLine params.runId params.stepId)) = true

end Attempt

section Requests
variable {net : Network} {r : SessionRun}

theorem typed_record {event : SessionEvent} :
    net.Typed (r.record event).log ↔ net.Typed r.log ∨ net.Types event := by
  simp [Network.Typed, SessionRun.record, or_and_right, exists_or]

theorem typed_record_quiet {event : SessionEvent} (hquiet : ¬ net.Types event) :
    net.Typed (r.record event).log ↔ net.Typed r.log := typed_record.trans (or_iff_left hquiet)

theorem typed_ask (answers : Answers) {req : Request} :
    net.Typed (r.ask answers req).log ↔
      net.Typed r.log ∨ net.Types (.request 0 (Link.connected ⟨r.link.client, answers.alive req⟩) req) :=
  typed_record (r := { r with link := { r.link with up := answers.alive req } })

theorem typed_ask_quiet (answers : Answers) {req : Request}
    (hquiet : ∀ connected, ¬ net.Types (.request 0 connected req)) :
    net.Typed (r.ask answers req).log ↔ net.Typed r.log :=
  (typed_ask answers).trans (or_iff_left (hquiet _))

theorem typed_ensureDir (answers : Answers) (path : String) :
    net.Typed (ensureDir answers r path).log ↔ net.Typed r.log := by
  have hstat : net.Typed (r.ask answers (.stat path)).log ↔ net.Typed r.log :=
    typed_ask_quiet answers fun _ => id
  rw [ensureDir]
  split
  · exact hstat
  · exact (typed_ask_quiet answers fun _ => id).trans hstat

theorem typed_writePayload (answers : Answers) (params : StepParams) (bytes : String) :
    net.Typed (writePayload answers params bytes r).log ↔ net.Typed r.log := by
  simp only [writePayload, List.foldl_cons, List.foldl_nil]
  rw [typed_ask_quiet answers fun _ => id, typed_ensureDir, typed_ensureDir, typed_ensureDir]

theorem typed_cleanup (params : StepParams) (session : Option Nat) :
    net.Typed (cleanup params session r).log ↔ net.Typed r.log := by
  have hdeleted : net.Typed
      (r.request 0 (.delete (payloadRelPath params.runId params.stepId))).log ↔ net.Typed r.log :=
    typed_record_quiet id
  cases session with
  | none => exact hdeleted
  | some session =>
    rw [cleanup]
    split
    · exact (typed_record_quiet id).trans hdeleted
    · exact hdeleted

/-- The end of the session and the removal of the payload type nothing. -/
theorem typed_giveUp (params : StepParams) {session : Nat} {result : StepEnd} :
    net.Typed (conclude params session (r.request 0 (.endSession session)) result).log ↔
      net.Typed r.log := by
  have hended : net.Typed (r.request 0 (.endSession session)).log ↔ net.Typed r.log :=
    typed_record_quiet id
  rw [conclude]
  split
  · exact hended
  · exact (typed_cleanup params (some session)).trans hended

end Requests

section Ends
variable {peer : Peer} {params : StepParams} {r : SessionRun}

/-- The step is past its bootstrap: its end, if it came, names the session. -/
def Bootstrapped (r : SessionRun) : Prop :=
  match r.phase with
  | .starting => False
  | .streaming _ _ _ | .ending _ _ _ => True
  | .done (.ok _) => True
  | .done (.error failure) => failure.session ≠ none

theorem bootstrapped_conclude_ok {session : Nat} {result : StepResult} :
    Bootstrapped (conclude params session r (.ok result)) := by
  rw [conclude]
  trivial

theorem bootstrapped_lostStep {session channel : Nat} {error : MuxyError} :
    Bootstrapped (lostStep params r session channel error) := nofun

theorem bootstrapped_askEnd {session channel : Nat} {why : Why} :
    Bootstrapped (askEnd r session channel why) := trivial

theorem Bootstrapped.congr {r' : SessionRun} (h : Bootstrapped r) (hphase : r'.phase = r.phase) :
    Bootstrapped r' := by
  rw [Bootstrapped, hphase]
  exact h

theorem bootstrapped_handleMsg {session channel : Nat} {state : LoopState} {msg : PumpMsg String}
    {queued : List (PumpMsg String)} {reconnection : Reconnection} (h : Bootstrapped r) :
    Bootstrapped (handleMsg peer params r session channel state msg queued reconnection) := by
  cases msg with
  | lines lines => exact h
  | budgetExceeded =>
    rw [handleMsg]
    split
    · exact h
    · trivial
  | tuiRedraw => exact bootstrapped_askEnd
  | ended reason => exact bootstrapped_conclude_ok
  | disconnected =>
    rw [handleMsg]
    split
    · exact bootstrapped_lostStep
    · split
      · exact bootstrapped_lostStep
      · trivial

theorem bootstrapped_streamTurn {session channel : Nat} {state : LoopState} {moment : Moment}
    (h : Bootstrapped r) : Bootstrapped (streamTurn peer params r session channel state moment) := by
  cases moment with
  | cancel =>
    rw [streamTurn, cancelOutcome]
    split
    · exact bootstrapped_conclude_ok
    · exact bootstrapped_askEnd
  | deadline =>
    rw [streamTurn]
    split
    · exact bootstrapped_askEnd
    · exact h
  | recv msg queued reconnection => exact bootstrapped_handleMsg h
  | closed => exact bootstrapped_lostStep
  | drop => exact h
  | graceOver => exact h
  | idle => exact h

theorem bootstrapped_afterWait {session channel : Nat} {why : Why} {found : WaitEnd} :
    Bootstrapped (afterWait peer params r session channel why found) := by
  cases why with
  | tui => exact bootstrapped_conclude_ok
  | timeout => exact bootstrapped_conclude_ok
  | cancel => exact bootstrapped_conclude_ok

theorem phase_waitForEnd (r : SessionRun) (moment : Moment) :
    (waitForEnd r moment).1.phase = r.phase := by
  cases moment with
  | recv msg queued reconnection => cases msg <;> rfl
  | _ => rfl

theorem bootstrapped_stepTurn (moment : Moment) (h : Bootstrapped r) :
    Bootstrapped (stepTurn peer params r moment) := by
  by_cases hdrop : moment = .drop
  · rw [hdrop]
    exact h.congr rfl
  rw [stepTurn_of_ne_drop hdrop]
  cases hphase : r.phase with
  | starting => exact h
  | streaming session channel state => exact bootstrapped_streamTurn h
  | ending session channel why =>
    have hkeep := phase_waitForEnd r moment
    simp only [waitTurn]
    cases hwait : waitForEnd r moment with
    | mk r' found =>
      rw [hwait] at hkeep
      cases found with
      | none => exact h.congr hkeep
      | some found => exact bootstrapped_afterWait
  | done result => exact h

theorem bootstrapped_turns {moments : List Moment} (h : Bootstrapped r) :
    Bootstrapped (moments.foldl (stepTurn peer params) r) := by
  induction moments generalizing r with
  | nil => exact h
  | cons moment rest ih => exact ih (bootstrapped_stepTurn moment h)

/-- A finished step stays as it is. -/
theorem done_turns {result : StepEnd} (moments : List Moment) (h : r.phase = .done result) :
    (moments.foldl (stepTurn peer params) r).phase = .done result ∧
      (moments.foldl (stepTurn peer params) r).log = r.log := by
  induction moments generalizing r with
  | nil => exact ⟨h, rfl⟩
  | cons moment rest ih =>
    have hturn : (stepTurn peer params r moment).phase = r.phase ∧
        (stepTurn peer params r moment).log = r.log := by
      by_cases hdrop : moment = .drop
      · rw [hdrop]
        exact ⟨rfl, rfl⟩
      · rw [stepTurn_of_ne_drop hdrop, h]
        exact ⟨h, rfl⟩
    obtain ⟨hphase, hlog⟩ := ih (hturn.1.trans h)
    exact ⟨hphase, hlog.trans hturn.2⟩

/-- A step that gave up before its loop: no session is left, and a line was typed in vain only when
its acknowledgement was lost. -/
def GaveUp (net : Network) (lost : Prop) (r : SessionRun) : Prop :=
  (∃ error, r.phase = .done (.error ⟨error, none, false⟩)) ∧ (net.Typed r.log ↔ lost)

theorem attachStep_ends (peer : Peer) (params : StepParams) (net : Network) (session : Nat)
    (hquiet : ¬ net.Typed r.log) :
    match net.answers.channel, net.answers.typed with
    | .ok _, none => Bootstrapped (attachStep peer params net.answers session r)
    | .ok channel, some _ =>
      GaveUp net (net.reached (.writeInput channel (bootstrapLine params.runId params.stepId)) = true)
        (attachStep peer params net.answers session r)
    | .error _, _ => GaveUp net False (attachStep peer params net.answers session r) := by
  have hattached : ¬ net.Typed (r.ask net.answers (.attach session (sessionSize params))).log :=
    (typed_ask_quiet net.answers fun _ => id).not.mpr hquiet
  rw [attachStep]
  cases net.answers.channel with
  | error err => exact ⟨⟨_, rfl⟩, iff_of_false (fun h => hattached ((typed_giveUp params).mp h)) id⟩
  | ok channel =>
    cases htyped : net.answers.typed with
    | none => trivial
    | some err =>
      refine ⟨⟨_, rfl⟩, ?_⟩
      rw [typed_giveUp, typed_record_quiet id, typed_ask, typed_record_quiet id,
        or_iff_right hattached]
      simp [Network.Types, htyped]

theorem startStep_ends (peer : Peer) (params : StepParams) (net : Network) :
    Bootstrapped (startStep peer params net.answers) ∧ ¬ AckLost peer params net ∨
      GaveUp net (AckLost peer params net) (startStep peer params net.answers) := by
  have hstart : ¬ net.Typed ([] : List SessionEvent) := fun h => by
    obtain ⟨event, hmem, -⟩ := h
    cases hmem
  rw [startStep, AckLost]
  cases plannedPayload peer params with
  | error error => exact .inr ⟨⟨_, rfl⟩, iff_of_false hstart (by simp)⟩
  | ok payload =>
    have hwritten : ¬ net.Typed (writePayload net.answers params payload
        ⟨⟨0, true⟩, none, .starting, [], []⟩).log :=
      (typed_writePayload net.answers params payload).not.mpr hstart
    cases net.answers.payloadWritten with
    | some err => exact .inr ⟨⟨_, rfl⟩, iff_of_false hwritten (by simp)⟩
    | none =>
      have hasked : ¬ net.Typed ((writePayload net.answers params payload
          ⟨⟨0, true⟩, none, .starting, [], []⟩).ask net.answers (.createSession peer.homeDir
            (sessionSize params) (envMap params.env))).log :=
        (typed_ask_quiet net.answers fun _ => id).not.mpr hwritten
      cases hsession : net.answers.session with
      | error err =>
        refine .inr ⟨⟨_, rfl⟩, iff_of_false (fun h => ?_) (by simp)⟩
        exact hasked ((typed_cleanup params none).mp h)
      | ok session =>
        have hattach := attachStep_ends (r := { (writePayload net.answers params payload
            ⟨⟨0, true⟩, none, .starting, [], []⟩).ask net.answers (.createSession peer.homeDir
              (sessionSize params) (envMap params.env)) with created := some session })
          peer params net session hasked
        cases hchannel : net.answers.channel with
        | error err =>
          rw [hchannel] at hattach
          exact .inr ⟨hattach.1, hattach.2.trans (by simp)⟩
        | ok channel =>
          cases htyped : net.answers.typed with
          | none =>
            rw [hchannel, htyped] at hattach
            exact .inl ⟨hattach, by simp⟩
          | some err =>
            rw [hchannel, htyped] at hattach
            exact .inr ⟨hattach.1, hattach.2.trans (by simp)⟩

end Ends

section Attempts
variable (peer : Peer) (params : StepParams) (net : Network) (moments : List Moment)
variable (explainExit : Option ExplainExit)

/-- An end that names its session is no reason to fall back. -/
theorem attemptStep_bootstrapped (policy : TransportPolicy)
    (h : Bootstrapped (Muxy.runStep peer params net.answers moments)) :
    attemptStep peer params net moments policy explainExit .runs ≠ some .fallback := by
  rw [attemptStep]
  rw [Bootstrapped] at h
  cases hphase : (Muxy.runStep peer params net.answers moments).phase with
  | starting => exact nofun
  | streaming session channel state => exact nofun
  | ending session channel why => exact nofun
  | done stepEnd =>
    rw [hphase] at h
    cases stepEnd with
    | ok result => exact nofun
    | error failure =>
      simp only [answerEnd, if_neg fun hc : failure.session = none ∧ policy = .auto => h hc.1]
      exact nofun

/-- Under another policy the step is never run over ssh. -/
theorem no_fallback {policy : TransportPolicy} (h : policy ≠ .auto) (fate : TaskFate) :
    attemptStep peer params net moments policy explainExit fate ≠ some .fallback := by
  have hend (stepEnd : StepEnd) :
      some (answerEnd policy peer.destination explainExit stepEnd) ≠ some .fallback := by
    cases stepEnd with
    | ok result => exact nofun
    | error failure =>
      rw [answerEnd, if_neg fun hc => h hc.2]
      exact nofun
  cases fate with
  | poisoned => exact hend _
  | stopped => exact nofun
  | runs =>
    rw [attemptStep]
    split
    · exact hend _
    · exact nofun

/-- Under the policy auto a script is started once, whatever the requests of the step come to,
exactly when the bootstrap was not delivered with its acknowledgement lost. -/
theorem starts_once_iff (fate : TaskFate) :
    StartsOnce peer params net moments .auto explainExit fate ↔
      (fate = .runs → ¬ AckLost peer params net) := by
  cases fate with
  | poisoned =>
    refine iff_of_true (fun h => ?_) nofun
    obtain ⟨event, hmem, -⟩ := h.1
    cases hmem
  | stopped => exact iff_of_true (fun h => nomatch h.2) nofun
  | runs =>
    rw [StartsOnce, MayHaveStarted, attemptLog]
    cases startStep_ends peer params net with
    | inl h =>
      have hnot := attemptStep_bootstrapped peer params net moments explainExit .auto
        (bootstrapped_turns h.1)
      exact iff_of_true (fun hboth => hnot hboth.2) fun _ => h.2
    | inr h =>
      obtain ⟨⟨error, hphase⟩, htyped⟩ := h
      obtain ⟨hdone, hlog⟩ := done_turns moments hphase
      have hanswer : attemptStep peer params net moments .auto explainExit .runs = some .fallback := by
        rw [attemptStep, Muxy.runStep, hdone]
        rfl
      rw [Muxy.runStep, hlog, htyped, and_iff_left hanswer]
      exact ⟨fun hlost _ => hlost, fun hlost => hlost rfl⟩

/-- The bootstrap arrives, its acknowledgement does not, and the script runs again over ssh. -/
theorem starts_twice : ¬ ∀ (peer : Peer) (params : StepParams) (net : Network)
    (moments : List Moment) (explainExit : Option ExplainExit) (fate : TaskFate),
    StartsOnce peer params net moments .auto explainExit fate := by
  intro h
  refine h ⟨"web1", "/root", true⟩ droppedStep
    ⟨{ willingServer with typed := some .timeout }, fun _ => true⟩ [] none .runs ⟨?_, rfl⟩
  have htyped : (attemptLog ⟨"web1", "/root", true⟩ droppedStep
      ⟨{ willingServer with typed := some .timeout }, fun _ => true⟩ [] .runs)[7]? =
      some (.request 0 (some 0) (.writeInput 3 (bootstrapLine "r" "s"))) := rfl
  exact ⟨_, List.mem_of_getElem? htyped, .inr rfl⟩

end Attempts

end Shellflow
