import Shellflow.Lib.Assoc
import Shellflow.Muxy.GapFill
import Shellflow.Muxy.Payload

/-! One session per step: payload file, environment, bootstrap, stream, outcome, cleanup. The
run keeps a record of the requests, each with the connection that was alive when it was made. -/
namespace Shellflow

structure StepParams where
  runId : String
  stepId : String
  script : String
  guard : Option String
  trace : Bool
  env : List (String × String)
  hasSecrets : Bool
  hasGuard : Bool
  cols : Nat
  rows : Nat
  timeout : Option Nat
  keepOnCancel : Bool

/-- What the host connection reports of its server. -/
structure Peer where
  destination : String
  homeDir : String
  supportsSessionEnvironment : Bool

structure StepResult where
  outcome : MuxyOutcome
  session : Nat
  stillRunning : Bool

structure MuxyFailure where
  error : MuxyError
  session : Option Nat
  stillRunning : Bool

abbrev StepEnd := Except MuxyFailure StepResult

def StepEnd.stillRunning : StepEnd → Bool
  | .ok result => result.stillRunning
  | .error failure => failure.stillRunning

inductive Request
  | stat (path : String)
  | mkdir (path : String)
  | writeBytes (path bytes : String)
  | createSession (directory : String) (size : Nat × Nat) (env : List (String × String))
  | attach (session : Nat) (size : Nat × Nat)
  | attachWithoutResize (session : Nat)
  | writeInput (channel : Nat) (bytes : String)
  | endSession (session : Nat)
  | detach (channel : Nat)
  | delete (path : String)
  | discardSession (session : Nat)

/-- Connections are numbered: the one the step starts with is `0`. -/
inductive SessionEvent
  | request (client : Nat) (connected : Option Nat) (req : Request)
  | register (session channel : Nat) (marker : String)
  | unregister (channel : Nat)
  | sawEnd (reason : ExitReason)

/-- The connection that the host holds. -/
structure Link where
  client : Nat
  up : Bool

def Link.connected (link : Link) : Option Nat := if link.up then some link.client else none

structure LoopState where
  reconnected : Bool
  budgetWarned : Bool

/-- What made the step ask for the end of its session. -/
inductive Why
  | tui
  | timeout
  | cancel
deriving DecidableEq

inductive Phase
  | starting
  | streaming (session channel : Nat) (state : LoopState)
  | ending (session channel : Nat) (why : Why)
  | done (result : StepEnd)

structure SessionRun where
  link : Link
  created : Option Nat
  phase : Phase
  lines : List String
  log : List SessionEvent

namespace SessionRun

def record (r : SessionRun) (event : SessionEvent) : SessionRun := { r with log := r.log ++ [event] }

def request (r : SessionRun) (client : Nat) (req : Request) : SessionRun :=
  r.record (.request client r.link.connected req)

def shown (r : SessionRun) (lines : List String) : SessionRun := { r with lines := r.lines ++ lines }

end SessionRun

/-- Best-effort teardown; the client is the one the step started with. -/
def cleanup (params : StepParams) (session : Option Nat) (r : SessionRun) : SessionRun :=
  let r := r.request 0 (.delete (payloadRelPath params.runId params.stepId))
  match session with
  | some session => if params.hasSecrets then r.request 0 (.discardSession session) else r
  | none => r

/-- The end of a step whose session was created. -/
def conclude (params : StepParams) (session : Nat) (r : SessionRun) (result : StepEnd) : SessionRun :=
  let r := if result.stillRunning then r else cleanup params (some session) r
  { r with phase := .done result }

section Start

def defaultCols : Nat := 200

def defaultRows : Nat := 50

def maxPayloadBytes : Nat := 5 * 1024 * 1024

def sessionSize (params : StepParams) : Nat × Nat :=
  (if params.cols = 0 then defaultCols else params.cols,
    if params.rows = 0 then defaultRows else params.rows)

def envLimits (env : List (String × String)) : Except String Unit :=
  if 128 < env.length then
    .error s!"the step has {env.length} env vars; the server accepts at most 128"
  else if 64 * 1024 < env.foldl (fun n p => n + (p.1.utf8ByteSize + p.2.utf8ByteSize)) 0 then
    .error "the step environment exceeds 64 KiB"
  else .ok ()

def checkEnv (peer : Peer) (params : StepParams) : Except MuxyError Unit :=
  match envLimits params.env with
  | .error detail => .error (.plan detail)
  | .ok () =>
    if params.env ≠ [] ∧ peer.supportsSessionEnvironment = false then
      .error (.incompatible peer.destination
        "the server does not support session environments; use --transport ssh")
    else .ok ()

/-- The payload, or why the step is refused before any request. -/
def plannedPayload (peer : Peer) (params : StepParams) : Except MuxyError String := do
  checkEnv peer params
  let payload := buildPayload params.script params.guard params.trace params.runId params.stepId
  if maxPayloadBytes < payload.utf8ByteSize then
    .error (.plan (s!"the payload is {payload.utf8ByteSize} bytes; " ++
      s!"the file API accepts at most {maxPayloadBytes}"))
  else .ok payload

/-- The sorted map of the environment: a later value replaces an earlier one. -/
def envMap (env : List (String × String)) : List (String × String) :=
  let le (a b : String) := Str.leChars a.toList b.toList
  env.foldl (fun map p => Assoc.insertSorted le p (map.filter fun q => q.1 ≠ p.1)) []

/-- The answers of the server up to the bootstrap, and whether the connection was alive at each
of the requests. -/
structure Answers where
  alive : Request → Bool
  statOk : String → Bool
  payloadWritten : Option ClientError
  session : Except ClientError Nat
  channel : Except ClientError Nat
  typed : Option ClientError

def SessionRun.ask (answers : Answers) (r : SessionRun) (req : Request) : SessionRun :=
  { r with link := { r.link with up := answers.alive req } }.request 0 req

def ensureDir (answers : Answers) (r : SessionRun) (path : String) : SessionRun :=
  let r := r.ask answers (.stat path)
  if answers.statOk path then r else r.ask answers (.mkdir path)

def writePayload (answers : Answers) (params : StepParams) (bytes : String) (r : SessionRun) :
    SessionRun :=
  let dirs := [".shellflow", ".shellflow/steps", runDirRelPath params.runId]
  (dirs.foldl (ensureDir answers) r).ask answers
    (.writeBytes (payloadRelPath params.runId params.stepId) bytes)

def failedStart (peer : Peer) (err : ClientError) : StepEnd :=
  .error ⟨classifyClientError peer.destination err, none, false⟩

/-- The half before the loop of a step whose session was just created. -/
def attachStep (peer : Peer) (params : StepParams) (answers : Answers) (session : Nat)
    (r : SessionRun) : SessionRun :=
  let r := r.ask answers (.attach session (sessionSize params))
  match answers.channel with
  | .error err =>
    conclude params session (r.request 0 (.endSession session)) (failedStart peer err)
  | .ok channel =>
    let r := r.record (.register session channel (beginMarker params.runId params.stepId))
    let r := r.ask answers (.writeInput channel (bootstrapLine params.runId params.stepId))
    match answers.typed with
    | some err =>
      let r := (r.record (.unregister channel)).request 0 (.endSession session)
      conclude params session r (failedStart peer err)
    | none => { r with phase := .streaming session channel ⟨false, false⟩ }

/-- The run up to the loop, or to a failure before it. -/
def startStep (peer : Peer) (params : StepParams) (answers : Answers) : SessionRun :=
  let r : SessionRun := ⟨⟨0, true⟩, none, .starting, [], []⟩
  match plannedPayload peer params with
  | .error error => { r with phase := .done (.error ⟨error, none, false⟩) }
  | .ok payload =>
    let r := writePayload answers params payload r
    match answers.payloadWritten with
    | some err => { r with phase := .done (failedStart peer err) }
    | none =>
      let r := r.ask answers
        (.createSession peer.homeDir (sessionSize params) (envMap params.env))
      match answers.session with
      | .error err => { cleanup params none r with phase := .done (failedStart peer err) }
      | .ok session => attachStep peer params answers session { r with created := some session }

end Start

section Loop

/-- How the one reconnect goes. -/
inductive Reconnection
  | failed (error : MuxyError)
  | connected (channel : Except ClientError Nat)

/-- What one turn of a loop finds; `queued` is what a drain would still get. -/
inductive Moment
  | drop
  | cancel
  | deadline
  | graceOver
  | idle
  | closed
  | recv (msg : PumpMsg String) (queued : List (PumpMsg String)) (reconnection : Reconnection)

inductive WaitEnd
  | ended (reason : ExitReason)
  | disconnected
  | expired

def drainLines : List (PumpMsg String) → List String
  | .lines lines :: queued => lines ++ drainLines queued
  | _ => []

/-- One turn of the wait for the end of the session. -/
def waitForEnd (r : SessionRun) : Moment → SessionRun × Option WaitEnd
  | .graceOver => (r, some .expired)
  | .closed => (r, some .disconnected)
  | .recv msg queued _ =>
    match msg with
    | .lines lines => (r.shown lines, none)
    | .ended reason =>
      ((r.record (.sawEnd reason)).shown (drainLines queued), some (.ended reason))
    | .disconnected => (r.shown (drainLines queued), some .disconnected)
    | .budgetExceeded | .tuiRedraw => (r, none)
  | .drop | .cancel | .deadline | .idle => (r, none)

def WaitEnd.isDisconnected : WaitEnd → Bool
  | .disconnected => true
  | .ended _ | .expired => false

/-- What follows the wait. A screen that was redrawn leaves the answer of the wait unused. -/
def afterWait (peer : Peer) (params : StepParams) (r : SessionRun) (session channel : Nat)
    (why : Why) (found : WaitEnd) : SessionRun :=
  match why with
  | .tui =>
    let outcome := .failedScript (MuxyError.tui peer.destination).toString none
    conclude params session r (.ok ⟨outcome, session, false⟩)
  | .timeout =>
    let result := .ok ⟨.timedOut, session, found.isDisconnected⟩
    conclude params session (r.record (.unregister channel)) result
  | .cancel =>
    let result := .ok ⟨.cancelled, session, found.isDisconnected⟩
    conclude params session (r.record (.unregister channel)) result

def waitTurn (peer : Peer) (params : StepParams) (r : SessionRun) (session channel : Nat) (why : Why)
    (moment : Moment) : SessionRun :=
  match waitForEnd r moment with
  | (r, some found) => afterWait peer params r session channel why found
  | (r, none) => r

/-- Ask for the end of the session; the client is the one the step started with. -/
def askEnd (r : SessionRun) (session channel : Nat) (why : Why) : SessionRun :=
  { r.request 0 (.endSession session) with phase := .ending session channel why }

def timeoutOutcome (r : SessionRun) (session channel : Nat) : SessionRun :=
  askEnd r session channel .timeout

def cancelOutcome (params : StepParams) (r : SessionRun) (session channel : Nat) : SessionRun :=
  if params.keepOnCancel then
    let r := (r.request 0 (.detach channel)).record (.unregister channel)
    conclude params session r (.ok ⟨.cancelled, session, true⟩)
  else askEnd r session channel .cancel

def resumeAfterReconnect (peer : Peer) (params : StepParams) (r : SessionRun) (session : Nat) :
    Reconnection → SessionRun × Option MuxyError
  | .failed error => (r, some error)
  | .connected channel =>
    let r := { r with link := ⟨r.link.client + 1, true⟩ }
    let r := r.request r.link.client (.attachWithoutResize session)
    match channel with
    | .error err => (r, some (classifyClientError peer.destination err))
    | .ok channel =>
      (r.record (.register session channel (beginMarker params.runId params.stepId)), none)

/-- The failure of a step whose session may go on without it. -/
def lostStep (params : StepParams) (r : SessionRun) (session channel : Nat) (error : MuxyError) :
    SessionRun :=
  conclude params session (r.record (.unregister channel)) (.error ⟨error, some session, true⟩)

def handleMsg (peer : Peer) (params : StepParams) (r : SessionRun) (session channel : Nat)
    (state : LoopState) (msg : PumpMsg String) (queued : List (PumpMsg String))
    (reconnection : Reconnection) : SessionRun :=
  match msg with
  | .lines lines => r.shown lines
  | .budgetExceeded =>
    if state.budgetWarned then r
    else
      { r.shown [(MuxyError.budgetExceeded peer.destination).toString] with
        phase := .streaming session channel { state with budgetWarned := true } }
  | .tuiRedraw => askEnd (r.record (.unregister channel)) session channel .tui
  | .ended reason =>
    let r := ((r.record (.sawEnd reason)).record (.unregister channel)).shown (drainLines queued)
    conclude params session r (.ok ⟨mapExitReason reason params.hasGuard, session, false⟩)
  | .disconnected =>
    if state.reconnected then lostStep params r session channel (.disconnected peer.destination)
    else
      match resumeAfterReconnect peer params r session reconnection with
      | (r, some error) => lostStep params r session channel error
      | (r, none) =>
        { r with phase := .streaming session channel { state with reconnected := true } }

/-- One turn of the loop of an attached step. -/
def streamTurn (peer : Peer) (params : StepParams) (r : SessionRun) (session channel : Nat)
    (state : LoopState) : Moment → SessionRun
  | .cancel => cancelOutcome params r session channel
  | .deadline => if params.timeout.isSome then timeoutOutcome r session channel else r
  | .recv msg queued reconnection =>
    handleMsg peer params r session channel state msg queued reconnection
  | .closed => lostStep params r session channel (.disconnected peer.destination)
  | .drop | .graceOver | .idle => r

def stepTurn (peer : Peer) (params : StepParams) (r : SessionRun) : Moment → SessionRun
  | .drop => { r with link := { r.link with up := false } }
  | moment =>
    match r.phase with
    | .streaming session channel state =>
      streamTurn peer params r session channel state moment
    | .ending session channel why => waitTurn peer params r session channel why moment
    | .starting | .done _ => r

theorem stepTurn_of_ne_drop {peer : Peer} {params : StepParams} {r : SessionRun} {moment : Moment}
    (hmoment : moment ≠ .drop) :
    stepTurn peer params r moment = match r.phase with
      | .streaming session channel state =>
        streamTurn peer params r session channel state moment
      | .ending session channel why => waitTurn peer params r session channel why moment
      | .starting | .done _ => r := by
  cases moment with
  | drop => exact absurd rfl hmoment
  | cancel | deadline | graceOver | idle | closed | recv => rfl

/-- A whole step: the start, then one turn after the other. -/
def Muxy.runStep (peer : Peer) (params : StepParams) (answers : Answers) (moments : List Moment) :
    SessionRun :=
  moments.foldl (stepTurn peer params) (startStep peer params answers)

end Loop

end Shellflow
