import Shellflow.Muxy.Session

/-! What a finished step says about its session: when it reports that nothing is running any
more, is that so? The loop keeps the client it started with, also after a reconnect. -/
namespace Shellflow

/-- The end was observed, or asked for on the connection that was alive. -/
def SessionEvent.TellsEnd (session : Nat) : SessionEvent → Prop
  | .sawEnd _ => True
  | .request client connected (.endSession s) => s = session ∧ connected = some client
  | _ => False

def SessionEvent.Deletes : SessionEvent → Prop
  | .request _ _ (.delete _) => True
  | _ => False

instance (session : Nat) : DecidablePred (SessionEvent.TellsEnd session)
  | .sawEnd _ => .isTrue trivial
  | .request client connected (.endSession s) =>
    inferInstanceAs (Decidable (s = session ∧ connected = some client))
  | .request _ _ (.stat _) | .request _ _ (.mkdir _) | .request _ _ (.writeBytes _ _) => .isFalse id
  | .request _ _ (.createSession _ _ _) | .request _ _ (.attach _ _) => .isFalse id
  | .request _ _ (.attachWithoutResize _) | .request _ _ (.writeInput _ _) => .isFalse id
  | .request _ _ (.detach _) | .request _ _ (.delete _) => .isFalse id
  | .request _ _ (.discardSession _) | .register _ _ _ | .unregister _ => .isFalse id

def EndKnown (session : Nat) (log : List SessionEvent) : Prop :=
  ∃ event ∈ log, event.TellsEnd session

def CleanedUp (log : List SessionEvent) : Prop := ∃ event ∈ log, event.Deletes

instance (session : Nat) (log : List SessionEvent) : Decidable (EndKnown session log) :=
  inferInstanceAs (Decidable (∃ event ∈ log, event.TellsEnd session))

/-- A step whose session was created says `still_running = false`, and removes the payload, only
when the end of the session is known. -/
structure Truthful (r : SessionRun) : Prop where
  ended : ∀ session result, r.created = some session → r.phase = .done result →
    result.stillRunning = false → EndKnown session r.log
  cleaned : ∀ session, r.created = some session → CleanedUp r.log →
    EndKnown session r.log ∧ ∃ result, r.phase = .done result ∧ result.stillRunning = false

/-- The wait is over without an answer, and the step reports the session as ended all the same.
After a redraw the answer of the wait is not looked at. -/
def Moment.blind (why : Why) : Moment → Bool
  | .graceOver => true
  | .closed => why = .tui
  | .recv .disconnected _ _ => why = .tui
  | _ => false

/-- Was the connection of the start gone, or replaced, when the loop last took a turn? -/
def lostAfter (lost : Bool) (r : SessionRun) : Bool :=
  match r.phase with
  | .streaming _ _ _ => r.link.connected ≠ some 0
  | _ => lost

/-- The wait does not end blindly when its request was made on a lost connection. -/
def CarefulTurn (lost : Bool) (r : SessionRun) (moment : Moment) : Prop :=
  match r.phase with
  | .ending _ _ why => moment.blind why = true → lost = false
  | _ => True

def CarefulTurns (peer : Peer) (params : StepParams) (lost : Bool) (r : SessionRun) :
    List Moment → Prop
  | [] => True
  | moment :: rest =>
    CarefulTurn lost r moment ∧
      CarefulTurns peer params (lostAfter lost r) (stepTurn peer params r moment) rest

/-- An attach or a bootstrap that fails does so on a connection that is still alive. -/
def CarefulStart (peer : Peer) (params : StepParams) (answers : Answers) : Prop :=
  ∀ payload session, plannedPayload peer params = .ok payload → answers.payloadWritten = none →
    answers.session = .ok session →
    match answers.channel with
    | .error _ => answers.alive (.attach session (sessionSize params)) = true
    | .ok channel => answers.typed.isSome = true →
      answers.alive (.writeInput channel (bootstrapLine params.runId params.stepId)) = true

section Log

theorem endKnown_record {session : Nat} {r : SessionRun} {event : SessionEvent} :
    EndKnown session (r.record event).log ↔ EndKnown session r.log ∨ event.TellsEnd session := by
  simp [EndKnown, SessionRun.record, or_and_right, exists_or]

theorem cleanedUp_record {r : SessionRun} {event : SessionEvent} :
    CleanedUp (r.record event).log ↔ CleanedUp r.log ∨ event.Deletes := by
  simp [CleanedUp, SessionRun.record, or_and_right, exists_or]

/-- The session of the step was created and its payload is still there. -/
structure Live (session : Nat) (r : SessionRun) : Prop where
  created : r.created = some session
  kept : ¬CleanedUp r.log

variable {session : Nat} {r : SessionRun}

theorem Live.record (h : Live session r) (event : SessionEvent) (hkeeps : ¬event.Deletes) :
    Live session (r.record event) :=
  ⟨h.created, fun hcleaned => (cleanedUp_record.mp hcleaned).elim h.kept hkeeps⟩

theorem Live.shown (h : Live session r) (lines : List String) : Live session (r.shown lines) :=
  ⟨h.created, h.kept⟩

theorem Live.truthful (h : Live session r) (hopen : ∀ result, r.phase ≠ .done result) :
    Truthful r :=
  ⟨fun _ result _ hdone _ => absurd hdone (hopen result), fun _ _ hcleaned => absurd hcleaned h.kept⟩

theorem endKnown_cleanup (params : StepParams) :
    EndKnown session (cleanup params (some session) r).log ↔ EndKnown session r.log := by
  by_cases hsecrets : params.hasSecrets = true
  · simp [cleanup, hsecrets, SessionRun.request, endKnown_record, SessionEvent.TellsEnd]
  · simp [cleanup, hsecrets, SessionRun.request, endKnown_record, SessionEvent.TellsEnd]

theorem created_cleanup {params : StepParams} {session : Option Nat} :
    (cleanup params session r).created = r.created := by
  cases session with
  | none => rfl
  | some session =>
    by_cases hsecrets : params.hasSecrets = true
    · simp [cleanup, hsecrets, SessionRun.request, SessionRun.record]
    · simp [cleanup, hsecrets, SessionRun.request, SessionRun.record]

/-- The end of a step is as truthful as its flag. -/
theorem truthful_conclude {params : StepParams} {result : StepEnd} (h : Live session r) :
    Truthful (conclude params session r result) ↔
      (result.stillRunning = false → EndKnown session r.log) := by
  by_cases hstill : result.stillRunning = true
  · have hconclude : conclude params session r result = { r with phase := .done result } := by
      rw [conclude, if_pos hstill]
    rw [hconclude]
    refine iff_of_true ⟨fun _ result' _ hdone hnot => ?_, fun _ _ hcleaned => ?_⟩ fun hnot => ?_
    · cases hdone
      exact absurd (hstill.symm.trans hnot) (by decide)
    · exact absurd hcleaned h.kept
    · exact absurd (hstill.symm.trans hnot) (by decide)
  · have hnot : result.stillRunning = false := Bool.eq_false_iff.mpr hstill
    have hconclude : conclude params session r result =
        { cleanup params (some session) r with phase := .done result } := by
      rw [conclude, if_neg hstill]
    rw [hconclude]
    constructor
    · intro htruthful _
      exact (endKnown_cleanup params).mp
        (htruthful.ended session result (created_cleanup.trans h.created) rfl hnot)
    · intro hknown
      have hlog := (endKnown_cleanup params).mpr (hknown hnot)
      refine ⟨fun session' _ hcreated _ _ => ?_, fun session' hcreated _ => ⟨?_, result, rfl, hnot⟩⟩
      · cases (created_cleanup.trans h.created).symm.trans hcreated
        exact hlog
      · cases (created_cleanup.trans h.created).symm.trans hcreated
        exact hlog

end Log

section Turns

/-- What is known before a turn: nothing was cleaned up, and the end is known exactly when it was
asked for on the connection that was alive. -/
def Ready (lost : Bool) (r : SessionRun) : Prop :=
  match r.phase with
  | .starting => False
  | .streaming session _ _ => Live session r ∧ ¬EndKnown session r.log
  | .ending session _ _ => Live session r ∧ (EndKnown session r.log ↔ lost = false)
  | .done _ => True

variable {peer : Peer} {params : StepParams} {session channel : Nat} {r : SessionRun}

/-- The loop stops and asks for the end. -/
theorem ready_askEnd {lost : Bool} {why : Why} (h : Live session r)
    (hunknown : ¬EndKnown session r.log) (hlost : lost = decide (r.link.connected ≠ some 0)) :
    Ready lost (askEnd r session channel why) ∧ Truthful (askEnd r session channel why) := by
  have hrecord : Live session (r.request 0 (.endSession session)) :=
    h.record _ id
  have hlive : Live session (askEnd r session channel why) := ⟨hrecord.created, hrecord.kept⟩
  have hknown : EndKnown session (r.request 0 (.endSession session)).log ↔ lost = false := by
    rw [SessionRun.request, endKnown_record, hlost]
    simp [SessionEvent.TellsEnd, hunknown]
  refine ⟨⟨hlive, hknown⟩, hlive.truthful fun result hdone => ?_⟩
  cases hdone

theorem Live.truthful_of_streaming {state : LoopState} (h : Live session r)
    (hphase : r.phase = .streaming session channel state) : Truthful r :=
  h.truthful fun _ hdone => Phase.noConfusion (hphase.symm.trans hdone)

theorem ready_streaming {lost : Bool} {state : LoopState} (h : Live session r)
    (hunknown : ¬EndKnown session r.log) (hphase : r.phase = .streaming session channel state) :
    Ready lost r ∧ Truthful r := by
  refine ⟨?_, h.truthful_of_streaming hphase⟩
  rw [Ready, hphase]
  exact ⟨h, hunknown⟩

/-- The step ends, and says no more than is known. -/
theorem ready_conclude {lost : Bool} {result : StepEnd} (h : Live session r)
    (hknown : result.stillRunning = false → EndKnown session r.log) :
    Ready lost (conclude params session r result) ∧
      Truthful (conclude params session r result) :=
  ⟨trivial, (truthful_conclude h).mpr hknown⟩

theorem ready_lostStep {lost : Bool} {error : MuxyError} (h : Live session r) :
    Ready lost (lostStep params r session channel error) ∧
      Truthful (lostStep params r session channel error) :=
  ready_conclude (h.record _ id) fun hnot => Bool.noConfusion hnot

/-- A reconnect says nothing about the end of the session. -/
theorem live_resume (peer : Peer) (params : StepParams) (reconnection : Reconnection)
    (h : Live session r)
    (hunknown : ¬EndKnown session r.log) :
    Live session (resumeAfterReconnect peer params r session reconnection).1 ∧
      ¬EndKnown session (resumeAfterReconnect peer params r session reconnection).1.log := by
  cases reconnection with
  | failed error => exact ⟨h, hunknown⟩
  | connected attached =>
    have hlink : Live session { r with link := ⟨r.link.client + 1, true⟩ } := ⟨h.created, h.kept⟩
    have hlive := hlink.record (.request (r.link.client + 1)
      (Link.connected ⟨r.link.client + 1, true⟩) (.attachWithoutResize session)) id
    have hquiet : ¬EndKnown session (SessionRun.record { r with link := ⟨r.link.client + 1, true⟩ }
        (.request (r.link.client + 1) (Link.connected ⟨r.link.client + 1, true⟩)
          (.attachWithoutResize session))).log :=
      fun hknown => (endKnown_record.mp hknown).elim hunknown id
    cases attached with
    | error err => exact ⟨hlive, hquiet⟩
    | ok channel =>
      exact ⟨hlive.record _ id, fun hknown => (endKnown_record.mp hknown).elim hquiet id⟩

theorem ready_handleMsg {lost : Bool} {state : LoopState} {msg : PumpMsg String}
    {queued : List (PumpMsg String)} {reconnection : Reconnection} (h : Live session r)
    (hphase : r.phase = .streaming session channel state)
    (hunknown : ¬EndKnown session r.log) (hlost : lost = decide (r.link.connected ≠ some 0)) :
    Ready lost (handleMsg peer params r session channel state msg queued reconnection) ∧
      Truthful (handleMsg peer params r session channel state msg queued reconnection) := by
  cases msg with
  | lines lines => exact ready_streaming ⟨h.created, h.kept⟩ hunknown hphase
  | budgetExceeded =>
    rw [handleMsg]
    by_cases hwarned : state.budgetWarned = true
    · rw [if_pos hwarned]
      exact ready_streaming h hunknown hphase
    · rw [if_neg hwarned]
      exact ready_streaming ⟨h.created, h.kept⟩ hunknown rfl
  | tuiRedraw =>
    have hrecord : ¬EndKnown session (r.record (.unregister channel)).log :=
      fun hknown => (endKnown_record.mp hknown).elim hunknown id
    exact ready_askEnd (h.record _ id) hrecord hlost
  | ended reason =>
    have hlive := (h.record (.sawEnd reason) id).record (.unregister channel) id
    exact ready_conclude ⟨hlive.created, hlive.kept⟩ fun _ =>
      endKnown_record.mpr (Or.inl (endKnown_record.mpr (Or.inr trivial)))
  | disconnected =>
    rw [handleMsg]
    by_cases hspent : state.reconnected = true
    · rw [if_pos hspent]
      exact ready_lostStep h
    · rw [if_neg hspent]
      obtain ⟨hlive, hstill⟩ := live_resume peer params reconnection h hunknown
      cases hresume : resumeAfterReconnect peer params r session reconnection with
      | mk resumed failure =>
        rw [hresume] at hlive hstill
        cases failure with
        | none => exact ready_streaming ⟨hlive.created, hlive.kept⟩ hstill rfl
        | some error => exact ready_lostStep hlive

theorem ready_streamTurn {lost : Bool} {state : LoopState} {moment : Moment} (h : Live session r)
    (hphase : r.phase = .streaming session channel state)
    (hunknown : ¬EndKnown session r.log) (hlost : lost = decide (r.link.connected ≠ some 0)) :
    Ready lost (streamTurn peer params r session channel state moment) ∧
      Truthful (streamTurn peer params r session channel state moment) := by
  cases moment with
  | drop | graceOver | idle => exact ready_streaming h hunknown hphase
  | cancel =>
    rw [streamTurn, cancelOutcome]
    by_cases hkeep : params.keepOnCancel = true
    · rw [if_pos hkeep]
      have hlive := (h.record (.request 0 r.link.connected (.detach channel)) id).record
        (.unregister channel) id
      exact ready_conclude hlive fun hnot => Bool.noConfusion hnot
    · rw [if_neg hkeep]
      exact ready_askEnd h hunknown hlost
  | deadline =>
    rw [streamTurn]
    by_cases hbudget : params.timeout.isSome = true
    · rw [if_pos hbudget]
      exact ready_askEnd h hunknown hlost
    · rw [if_neg hbudget]
      exact ready_streaming h hunknown hphase
  | closed => exact ready_lostStep h
  | recv msg queued reconnection => exact ready_handleMsg h hphase hunknown hlost

theorem endKnown_unregister :
    EndKnown session (r.record (.unregister channel)).log ↔ EndKnown session r.log :=
  endKnown_record.trans (or_iff_left id)

/-- A redraw always counts as an end; the others do unless the connection was lost. -/
theorem truthful_afterWait (peer : Peer) (params : StepParams) (channel : Nat) (why : Why)
    (found : WaitEnd) (h : Live session r) :
    Truthful (afterWait peer params r session channel why found) ↔
      (why = .tui ∨ found.isDisconnected = false → EndKnown session r.log) := by
  have hunregistered : Live session (r.record (.unregister channel)) := h.record _ id
  cases why with
  | tui =>
    refine (truthful_conclude h).trans ⟨fun hknown _ => hknown rfl, fun hknown _ => ?_⟩
    exact hknown (Or.inl rfl)
  | timeout =>
    refine (truthful_conclude hunregistered).trans ?_
    rw [endKnown_unregister]
    exact ⟨fun hknown hends => hknown (hends.resolve_left nofun), fun hknown hnot => hknown (Or.inr hnot)⟩
  | cancel =>
    refine (truthful_conclude hunregistered).trans ?_
    rw [endKnown_unregister]
    exact ⟨fun hknown hends => hknown (hends.resolve_left nofun), fun hknown hnot => hknown (Or.inr hnot)⟩

theorem ready_afterWait {lost : Bool} {why : Why} {found : WaitEnd} :
    Ready lost (afterWait peer params r session channel why found) := by
  cases why with
  | tui | timeout | cancel => trivial

theorem ready_ending {lost : Bool} {why : Why} (h : Live session r)
    (hknown : EndKnown session r.log ↔ lost = false)
    (hphase : r.phase = .ending session channel why) : Ready lost r ∧ Truthful r := by
  refine ⟨?_, h.truthful fun result hdone => ?_⟩
  · rw [Ready, hphase]
    exact ⟨h, hknown⟩
  · rw [hphase] at hdone
    cases hdone

/-- One turn of the wait: it goes on, or it ends and what it says is true unless it was blind. -/
theorem ready_waitTurn {lost : Bool} {why : Why} {moment : Moment} (h : Live session r)
    (hphase : r.phase = .ending session channel why)
    (hknown : EndKnown session r.log ↔ lost = false) :
    Ready lost (waitTurn peer params r session channel why moment) ∧
      (Truthful (waitTurn peer params r session channel why moment) ↔
        (moment.blind why = true → lost = false)) := by
  have hwaits : ∀ {r' : SessionRun}, Live session r' → (EndKnown session r'.log ↔ lost = false) →
      r'.phase = .ending session channel why → moment.blind why = false →
      Ready lost r' ∧ (Truthful r' ↔ (moment.blind why = true → lost = false)) := by
    intro r' hlive hknown' hphase' hsees
    obtain ⟨hready, htruthful⟩ := ready_ending hlive hknown' hphase'
    exact ⟨hready, iff_of_true htruthful fun hblind => absurd (hsees.symm.trans hblind) nofun⟩
  cases moment with
  | drop | cancel | deadline | idle => exact hwaits h hknown hphase rfl
  | graceOver =>
    refine ⟨ready_afterWait, (truthful_afterWait peer params channel why _ h).trans ?_⟩
    exact ⟨fun hends _ => hknown.mp (hends (Or.inr rfl)), fun hlost _ => hknown.mpr (hlost rfl)⟩
  | closed =>
    refine ⟨ready_afterWait, (truthful_afterWait peer params channel why _ h).trans ?_⟩
    simp [Moment.blind, WaitEnd.isDisconnected, hknown]
  | recv msg queued reconnection =>
    cases msg with
    | lines lines => exact hwaits ⟨h.created, h.kept⟩ hknown hphase rfl
    | budgetExceeded | tuiRedraw => exact hwaits h hknown hphase rfl
    | ended reason =>
      have hseen : EndKnown session (r.record (.sawEnd reason)).log :=
        endKnown_record.mpr (Or.inr trivial)
      have hlive : Live session (r.record (.sawEnd reason)) := h.record _ id
      have hends := truthful_afterWait peer params channel why (.ended reason)
        (hlive.shown (drainLines queued))
      exact ⟨ready_afterWait, iff_of_true (hends.mpr fun _ => hseen) nofun⟩
    | disconnected =>
      have hends := truthful_afterWait peer params channel why .disconnected
        (h.shown (drainLines queued))
      refine ⟨ready_afterWait, hends.trans ?_⟩
      simp [Moment.blind, WaitEnd.isDisconnected, SessionRun.shown, hknown]

theorem truthful_congr {r r' : SessionRun} (hcreated : r'.created = r.created)
    (hphase : r'.phase = r.phase) (hlog : r'.log = r.log) : Truthful r' ↔ Truthful r := by
  constructor
  · intro h
    exact ⟨by simpa [hcreated, hphase, hlog] using h.ended,
      by simpa [hcreated, hphase, hlog] using h.cleaned⟩
  · intro h
    exact ⟨by simpa [hcreated, hphase, hlog] using h.ended,
      by simpa [hcreated, hphase, hlog] using h.cleaned⟩

theorem stepTurn_streaming (peer : Peer) (params : StepParams) {lost : Bool} {state : LoopState}
    (moment : Moment) (h : Live session r) (hphase : r.phase = .streaming session channel state)
    (hunknown : ¬EndKnown session r.log) (hlost : lost = decide (r.link.connected ≠ some 0)) :
    Ready lost (stepTurn peer params r moment) ∧ Truthful (stepTurn peer params r moment) := by
  by_cases hmoment : moment = .drop
  · rw [hmoment]
    exact ready_streaming ⟨h.created, h.kept⟩ hunknown hphase
  · rw [stepTurn_of_ne_drop hmoment, hphase]
    exact ready_streamTurn h hphase hunknown hlost

theorem stepTurn_ending (peer : Peer) (params : StepParams) {lost : Bool} {why : Why}
    (moment : Moment) (h : Live session r)
    (hphase : r.phase = .ending session channel why)
    (hknown : EndKnown session r.log ↔ lost = false) :
    Ready lost (stepTurn peer params r moment) ∧
      (Truthful (stepTurn peer params r moment) ↔ (moment.blind why = true → lost = false)) := by
  by_cases hmoment : moment = .drop
  · rw [hmoment]
    have hdropped : Live session (stepTurn peer params r .drop) := ⟨h.created, h.kept⟩
    obtain ⟨hready, htruthful⟩ := ready_ending hdropped hknown hphase
    exact ⟨hready, iff_of_true htruthful nofun⟩
  · rw [stepTurn_of_ne_drop hmoment, hphase]
    exact ready_waitTurn h hphase hknown

/-- Nothing happens to a finished step. -/
theorem stepTurn_done (peer : Peer) (params : StepParams) {result : StepEnd} (moment : Moment)
    (hphase : r.phase = .done result) :
    (stepTurn peer params r moment).phase = r.phase ∧
      (Truthful (stepTurn peer params r moment) ↔ Truthful r) := by
  by_cases hmoment : moment = .drop
  · rw [hmoment]
    exact ⟨rfl, truthful_congr rfl rfl rfl⟩
  · rw [stepTurn_of_ne_drop hmoment, hphase]
    exact ⟨hphase, Iff.rfl⟩

/-- One turn, whatever it finds. -/
theorem truthful_stepTurn (peer : Peer) (params : StepParams) {lost : Bool} (moment : Moment)
    (h : Ready lost r) :
    Ready (lostAfter lost r) (stepTurn peer params r moment) ∧
      (Truthful (stepTurn peer params r moment) ↔ Truthful r ∧ CarefulTurn lost r moment) := by
  rw [lostAfter, CarefulTurn]
  rw [Ready] at h
  cases hphase : r.phase with
  | starting =>
    rw [hphase] at h
    exact h.elim
  | streaming session channel state =>
    rw [hphase] at h
    obtain ⟨hready, htruthful⟩ := stepTurn_streaming peer params moment h.1 hphase h.2 rfl
    exact ⟨hready, iff_of_true htruthful ⟨h.1.truthful_of_streaming hphase, trivial⟩⟩
  | ending session channel why =>
    rw [hphase] at h
    obtain ⟨hready, htruthful⟩ := stepTurn_ending peer params moment h.1 hphase h.2
    exact ⟨hready, htruthful.trans (and_iff_right (ready_ending h.1 h.2 hphase).2).symm⟩
  | done result =>
    obtain ⟨hstays, hsame⟩ := stepTurn_done peer params moment hphase
    refine ⟨?_, hsame.trans (and_iff_left trivial).symm⟩
    rw [Ready, hstays, hphase]
    trivial

/-- The run is truthful when each of its turns is. -/
theorem truthful_turns {lost : Bool} {moments : List Moment} (h : Ready lost r) :
    Truthful (moments.foldl (stepTurn peer params) r) ↔
      Truthful r ∧ CarefulTurns peer params lost r moments := by
  induction moments generalizing lost r with
  | nil => exact (and_iff_left trivial).symm
  | cons moment rest ih =>
    obtain ⟨hready, hturn⟩ := truthful_stepTurn peer params moment h
    rw [List.foldl_cons, ih hready, hturn, CarefulTurns, and_assoc]

end Turns

section Starts
variable {peer : Peer} {params : StepParams} {answers : Answers} {r : SessionRun}

/-- The step has no session yet, and nothing was asked or cleaned up. -/
structure Unopened (r : SessionRun) : Prop where
  created : r.created = none
  client : r.link.client = 0
  kept : ¬CleanedUp r.log
  unknown : ∀ session, ¬EndKnown session r.log

theorem Unopened.ask (h : Unopened r) (answers : Answers) (req : Request)
    (hkeeps : ∀ connected, ¬(SessionEvent.request 0 connected req).Deletes)
    (hquiet : ∀ connected session, ¬(SessionEvent.request 0 connected req).TellsEnd session) :
    Unopened (r.ask answers req) :=
  ⟨h.created, h.client, fun hcleaned => (cleanedUp_record.mp hcleaned).elim h.kept (hkeeps _),
    fun session hknown => (endKnown_record.mp hknown).elim (h.unknown session) (hquiet _ session)⟩

theorem Unopened.ensureDir (h : Unopened r) (answers : Answers) (path : String) :
    Unopened (ensureDir answers r path) := by
  have hstat : Unopened (r.ask answers (.stat path)) := h.ask answers _ (fun _ => id) fun _ _ => id
  rw [Shellflow.ensureDir]
  split
  · exact hstat
  · exact hstat.ask answers _ (fun _ => id) fun _ _ => id

theorem Unopened.writePayload (h : Unopened r) (answers : Answers) (params : StepParams)
    (bytes : String) :
    Unopened (writePayload answers params bytes r) := by
  have hdirs := ((h.ensureDir answers ".shellflow").ensureDir answers ".shellflow/steps").ensureDir
    answers (runDirRelPath params.runId)
  exact hdirs.ask answers _ (fun _ => id) fun _ _ => id

theorem truthful_uncreated (h : r.created = none) : Truthful r := by
  constructor
  · intro session result hcreated
    exact absurd (h.symm.trans hcreated) nofun
  · intro session hcreated
    exact absurd (h.symm.trans hcreated) nofun

theorem Live.ask {session : Nat} (h : Live session r) (answers : Answers) (req : Request)
    (hkeeps : ¬(SessionEvent.request 0 (Link.connected ⟨r.link.client, answers.alive req⟩)
      req).Deletes) : Live session (r.ask answers req) :=
  Live.record (r := { r with link := { r.link with up := answers.alive req } })
    ⟨h.created, h.kept⟩ _ hkeeps

theorem unknown_record {session : Nat} {event : SessionEvent} (h : ¬EndKnown session r.log)
    (hquiet : ¬event.TellsEnd session) : ¬EndKnown session (r.record event).log :=
  fun hknown => (endKnown_record.mp hknown).elim h hquiet

theorem unknown_ask {session : Nat} {req : Request} (h : ¬EndKnown session r.log)
    (hquiet : ¬(SessionEvent.request 0 (Link.connected ⟨r.link.client, answers.alive req⟩)
      req).TellsEnd session) : ¬EndKnown session (r.ask answers req).log :=
  unknown_record (r := { r with link := { r.link with up := answers.alive req } }) h hquiet

theorem connected_ask {req : Request} (hclient : r.link.client = 0) :
    (r.ask answers req).link.connected = some 0 ↔ answers.alive req = true := by
  simp [SessionRun.ask, SessionRun.request, SessionRun.record, Link.connected, hclient]

/-- The step gives up before its loop and asks for the end of its session. -/
theorem truthful_failedStart {session : Nat} {err : ClientError} (h : Live session r)
    (hunknown : ¬EndKnown session r.log) :
    Truthful (conclude params session (r.request 0 (.endSession session))
      (failedStart peer err)) ↔ r.link.connected = some 0 := by
  have hlive : Live session (r.request 0 (.endSession session)) := h.record _ id
  rw [truthful_conclude hlive, SessionRun.request, endKnown_record, or_iff_right hunknown]
  exact ⟨fun hknown => (hknown rfl).2, fun hup _ => ⟨rfl, hup⟩⟩

theorem truthful_attachStep (peer : Peer) (params : StepParams) (answers : Answers) {session : Nat} (h : Live session r)
    (hunknown : ¬EndKnown session r.log) (hclient : r.link.client = 0) :
    Ready false (attachStep peer params answers session r) ∧
      (Truthful (attachStep peer params answers session r) ↔
        match answers.channel with
        | .error _ => answers.alive (.attach session (sessionSize params)) = true
        | .ok channel => answers.typed.isSome = true → answers.alive
          (.writeInput channel (bootstrapLine params.runId params.stepId)) = true) := by
  rw [attachStep]
  cases answers.channel with
  | error err =>
    refine ⟨trivial, (truthful_failedStart (h.ask answers _ id) (unknown_ask hunknown id)).trans ?_⟩
    exact connected_ask hclient
  | ok channel =>
    have hlive := (h.ask answers (.attach session (sessionSize params)) id).record
      (.register session channel (beginMarker params.runId params.stepId)) id
    have hquiet : ¬EndKnown session ((r.ask answers (.attach session (sessionSize params))).record
        (.register session channel (beginMarker params.runId params.stepId))).log :=
      unknown_record (unknown_ask hunknown id) id
    have hasked := hlive.ask answers
      (.writeInput channel (bootstrapLine params.runId params.stepId)) id
    cases answers.typed with
    | some err =>
      refine ⟨trivial, (truthful_failedStart (hasked.record (.unregister channel) id)
        (unknown_record (unknown_ask hquiet id) id)).trans ((connected_ask hclient).trans ?_)⟩
      exact ⟨fun halive _ => halive, fun halive => halive rfl⟩
    | none =>
      exact ⟨⟨⟨hasked.created, hasked.kept⟩, unknown_ask hquiet id⟩,
        iff_of_true (Live.truthful_of_streaming ⟨hasked.created, hasked.kept⟩ rfl) nofun⟩

theorem Unopened.start : Unopened ⟨⟨0, true⟩, none, .starting, [], []⟩ :=
  ⟨rfl, rfl, fun hcleaned => by simp [CleanedUp] at hcleaned,
    fun _ hknown => by simp [EndKnown] at hknown⟩

theorem truthful_startStep (peer : Peer) (params : StepParams) (answers : Answers) :
    Ready false (startStep peer params answers) ∧
      (Truthful (startStep peer params answers) ↔ CarefulStart peer params answers) := by
  rw [startStep, CarefulStart]
  cases plannedPayload peer params with
  | error error => exact ⟨trivial, iff_of_true (truthful_uncreated rfl) nofun⟩
  | ok payload =>
    have hwritten := Unopened.start.writePayload answers params payload
    cases answers.payloadWritten with
    | some err => exact ⟨trivial, iff_of_true (truthful_uncreated hwritten.created) nofun⟩
    | none =>
      have hasked := hwritten.ask answers
        (.createSession peer.homeDir (sessionSize params) (envMap params.env)) (fun _ => id)
        fun _ _ => id
      cases answers.session with
      | error err =>
        exact ⟨trivial, iff_of_true (truthful_uncreated (created_cleanup.trans hasked.created))
          nofun⟩
      | ok session =>
        have hlive : Live session { (writePayload answers params payload
            ⟨⟨0, true⟩, none, .starting, [], []⟩).ask answers (.createSession peer.homeDir
              (sessionSize params) (envMap params.env)) with created := some session } :=
          ⟨rfl, hasked.kept⟩
        obtain ⟨hready, htruthful⟩ := truthful_attachStep peer params answers hlive
          (hasked.unknown session) hasked.client
        refine ⟨hready, htruthful.trans ⟨fun hcareful payload' session' _ _ hsession => ?_,
          fun hcareful => hcareful payload session rfl rfl rfl⟩⟩
        cases hsession
        exact hcareful

end Starts

/-- The report of a step is truthful, in every run, exactly when its start and its turns are
careful with the connection the step started on. -/
theorem Muxy.stillRunning_truthful_iff (peer : Peer) (params : StepParams) (answers : Answers)
    (moments : List Moment) :
    Truthful (Muxy.runStep peer params answers moments) ↔
      CarefulStart peer params answers ∧
        CarefulTurns peer params false (startStep peer params answers) moments := by
  obtain ⟨hready, hstart⟩ := truthful_startStep peer params answers
  rw [Muxy.runStep, truthful_turns hready, hstart]

section Reconnected

def droppedStep : StepParams :=
  ⟨"r", "s", "sleep 900", none, false, [], false, false, 0, 0, some 60, false⟩

def willingServer : Answers := ⟨fun _ => true, fun _ => true, none, .ok 7, .ok 3, none⟩

/-- The connection drops and is replaced; then the deadline passes, and the request to end the
session goes to the client that is gone. The step says all the same that nothing is running. -/
theorem Muxy.stillRunning_after_reconnect :
    ¬Truthful (Muxy.runStep ⟨"api", "/root", true⟩ droppedStep willingServer
      [.drop, .recv .disconnected [] (.connected (.ok 4)), .deadline, .graceOver]) := by
  intro htruthful
  exact absurd (htruthful.ended 7 _ rfl rfl rfl) (by decide +kernel)

end Reconnected

end Shellflow
