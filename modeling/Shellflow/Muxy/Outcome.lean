import Shellflow.Lib.Str

/-! What a session can end with and how a request can fail, mapped to the outcome of a step. -/
namespace Shellflow

/-- Why the server says that a session ended. -/
inductive ExitReason
  | exited (code : Int)
  | signaled (signum : Int)
  | ended
  | serverStopped
  | unrecognized (n : Nat)
deriving DecidableEq

inductive MuxyOutcome
  | ok
  | skipped
  | failedScript (message : String) (exit : Option Int)
  | failedTransport (message : String)
  | timedOut
  | cancelled
deriving DecidableEq

def guardSkipExit : Int := 42

def mapExitReason (reason : ExitReason) (hasGuard : Bool) : MuxyOutcome :=
  match reason with
  | .exited code =>
    if code = 0 then .ok
    else if code = guardSkipExit ∧ hasGuard then .skipped
    else .failedScript s!"the block failed (exit {code})" (some code)
  | .signaled signum => .failedScript s!"the block was signalled ({signum})" none
  | .ended => .cancelled
  | .serverStopped => .failedTransport "the muxy server stopped mid-step"
  | .unrecognized n =>
    .failedTransport s!"the session ended with an unrecognized reason ({n})"

inductive MuxyError
  | ssh (destination detail : String)
  | notInstalled (destination : String)
  | unreachable (destination detail : String)
  | incompatible (destination detail : String)
  | timeout (destination detail : String)
  | unexpectedOutput (destination detail : String)
  | bridgeFailed (destination detail : String)
  | request (detail : String)
  | plan (detail : String)
  | disconnected (destination : String)
  | tui (host : String)
  | budgetExceeded (host : String)
  | pumpSpawn (destination : String)

def MuxyError.toString : MuxyError → String
  | .ssh destination detail => s!"ssh to {destination} failed: {detail}"
  | .notInstalled destination => s!"muxy is not installed on {destination}"
  | .unreachable destination detail => s!"cannot reach {destination}: {detail}"
  | .incompatible destination detail => s!"incompatible muxy on {destination}: {detail}"
  | .timeout destination detail => s!"timed out connecting to {destination}: {detail}"
  | .unexpectedOutput destination detail => s!"unexpected output from {destination}: {detail}"
  | .bridgeFailed destination detail => s!"muxy bridge on {destination} failed: {detail}"
  | .request detail => s!"muxy request failed: {detail}"
  | .plan detail => s!"muxy plan error: {detail}"
  | .disconnected destination => s!"lost the muxy connection to {destination}"
  | .tui host =>
    s!"{host}: the block redrew the screen; not supported over muxy (use --transport ssh)"
  | .budgetExceeded host =>
    s!"{host}: the step produced more than the session budget; its head is gone"
  | .pumpSpawn destination => s!"cannot spawn the event pump for {destination}"

inductive RemoteReason
  | notInstalled
  | unreachable
  | incompatible
  | timeout
  | unexpectedOutput
  | bridgeFailed
  | notRunning
  | hostKeyUnknown
  | hostKeyChanged
  | authenticationFailed
  | sshMissing

/-- The answers of the client that a request can fail with; `other` carries its own text. -/
inductive ClientError
  | remote (reason : RemoteReason) (detail : String)
  | versionUnsupported
  | timeout
  | disconnected
  | other (text : String)

def classifyClientError (destination : String) : ClientError → MuxyError
  | .remote reason detail =>
    match reason with
    | .notInstalled => .notInstalled destination
    | .unreachable => .unreachable destination detail
    | .incompatible => .incompatible destination detail
    | .timeout => .timeout destination detail
    | .unexpectedOutput => .unexpectedOutput destination detail
    | .bridgeFailed => .bridgeFailed destination detail
    | .notRunning | .hostKeyUnknown | .hostKeyChanged | .authenticationFailed | .sshMissing =>
      .ssh destination detail
  | .versionUnsupported =>
    .incompatible destination "the running server speaks a protocol this build cannot speak"
  | .timeout => .timeout destination "request timed out"
  | .disconnected => .disconnected destination
  | .other text => .request text

end Shellflow
