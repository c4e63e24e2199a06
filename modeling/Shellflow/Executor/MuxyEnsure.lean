import Mathlib.Logic.Function.Basic
import Mathlib.Tactic.Simps.Basic
import Shellflow.Dsl.Resolve
import Shellflow.Dsl.SshArgs
import Shellflow.Executor.MuxyAttempt
import Shellflow.Lib.Runs

/-! The muxy connections of a run, shared by the tasks of all hosts. A call looks its host up, pings
what it finds or connects, and writes the slot; the lock of the map is free in between. -/
namespace Shellflow.MuxyEnsure
open Runs

/-- The key of a host in the map. -/
def shellCacheKey (spec : SshSpec) : String :=
  match spec.port with
  | some port => spec.dest ++ (":" ++ toString port)
  | none => spec.dest

/-- One call of `ensure_host`. -/
structure EnsureCall where
  host : ResolvedHost
  formed : host.spec.WellFormed
  probeMuxy : Bool
  hasSecrets : Bool
  policy : TransportPolicy

def EnsureCall.key (c : EnsureCall) : String := shellCacheKey c.host.spec

/-- A connection that was opened in this run, and the call that opened it. -/
structure HostConnection where
  call : EnsureCall
  peer : Peer

inductive MuxySlot
  | available (conn : Nat)
  | unavailable (reason : String)

inductive EnsureOutcome
  | muxy (conn : Nat)
  | ssh
  | fail (message : String)

def shortReason : MuxyError → String
  | .notInstalled _ => "muxy not installed"
  | .unreachable _ detail => s!"unreachable ({detail})"
  | .incompatible _ detail => s!"incompatible ({detail})"
  | .timeout _ _ => "connection timed out"
  | other => other.toString

def EnsureCall.fallbackOrFail (c : EnsureCall) (reason : String) : EnsureOutcome :=
  if c.policy = .muxy then .fail s!"[{c.host.hostAlias}] transport muxy unavailable: {reason}"
  else .ssh

/-- A secret-bearing step on a server without session environments. -/
def EnsureCall.withoutEnv (c : EnsureCall) : EnsureOutcome :=
  if c.policy = .muxy then
    .fail (s!"[{c.host.hostAlias}] the server does not support session environments; " ++
      "secret-bearing steps need it (use --transport ssh)")
  else .ssh

/-- How the blocking task that connects ends. -/
inductive ConnectEnd
  | connected (peer : Peer)
  | refused (error : MuxyError)
  | stopped

/-- Where a task is in `ensure_host`. -/
inductive EnsurePhase
  | free
  | looking (call : EnsureCall)
  | pinging (call : EnsureCall) (conn : Nat)
  /-- The ping failed, and the slot is to be removed. -/
  | dropping (call : EnsureCall)
  | missing (call : EnsureCall)
  | connecting (call : EnsureCall)
  | opened (call : EnsureCall) (conn : Nat) (peer : Peer)
  | refused (call : EnsureCall) (reason : String)
  | returned (call : EnsureCall) (outcome : EnsureOutcome)

inductive EnsureAct (τ : Type*)
  | call (task : τ) (call : EnsureCall)
  /-- `cache.get(&key)`, under the lock. -/
  | lookup (task : τ)
  | ping (task : τ) (answers : Bool)
  /-- `cache.remove(&key)`, under the lock. -/
  | remove (task : τ)
  /-- The probe saw a muxy, or the slot is written without a connection. -/
  | probe (task : τ)
  | connect (task : τ) (result : ConnectEnd)
  /-- `cache.insert(key, ..)`, under the lock. -/
  | store (task : τ)

structure MuxyCache (τ : Type*) where
  cache : String → Option MuxySlot
  conns : List HostConnection
  tasks : τ → EnsurePhase

def EnsurePhase.ready : EnsurePhase → Bool
  | .free | .returned _ _ => true
  | _ => false

/-- What a call does about the slot that it found. -/
def found (c : EnsureCall) : Option MuxySlot → EnsurePhase
  | some (.available conn) => .pinging c conn
  | some (.unavailable reason) => .returned c (c.fallbackOrFail reason)
  | none => .missing c

namespace MuxyCache
variable {τ : Type*} [DecidableEq τ]

def new : MuxyCache τ := ⟨fun _ => none, [], fun _ => .free⟩

@[simps] def setTask (s : MuxyCache τ) (t : τ) (phase : EnsurePhase) : MuxyCache τ :=
  { s with tasks := Function.update s.tasks t phase }

@[simps] def setSlot (s : MuxyCache τ) (key : String) (slot : Option MuxySlot) : MuxyCache τ :=
  { s with cache := Function.update s.cache key slot }

@[simps] def addConn (s : MuxyCache τ) (conn : HostConnection) : MuxyCache τ :=
  { s with conns := s.conns ++ [conn] }

def step (s : MuxyCache τ) : EnsureAct τ → Option (MuxyCache τ)
  | .call t c =>
    if (s.tasks t).ready then
      some (s.setTask t (if c.policy = .ssh then .returned c .ssh else .looking c))
    else none
  | .lookup t =>
    match s.tasks t with
    | .looking c => some (s.setTask t (found c (s.cache c.key)))
    | _ => none
  | .ping t answers =>
    match s.tasks t with
    | .pinging c conn =>
      some (s.setTask t (if answers then .returned c (.muxy conn) else .dropping c))
    | _ => none
  | .remove t =>
    match s.tasks t with
    | .dropping c => some ((s.setSlot c.key none).setTask t (.missing c))
    | _ => none
  | .probe t =>
    match s.tasks t with
    | .missing c =>
      if c.probeMuxy then some (s.setTask t (.connecting c))
      else
        some ((s.setSlot c.key (some (.unavailable "muxy not installed"))).setTask t
          (.returned c (c.fallbackOrFail "muxy not installed")))
    | _ => none
  | .connect t result =>
    match s.tasks t with
    | .connecting c =>
      match result with
      | .connected peer => some ((s.addConn ⟨c, peer⟩).setTask t (.opened c s.conns.length peer))
      | .refused error => some (s.setTask t (.refused c (shortReason error)))
      | .stopped =>
        some (s.setTask t (.returned c
          (c.fallbackOrFail "the muxy connect task stopped unexpectedly")))
    | _ => none
  | .store t =>
    match s.tasks t with
    | .refused c reason =>
      some ((s.setSlot c.key (some (.unavailable reason))).setTask t
        (.returned c (c.fallbackOrFail reason)))
    | .opened c conn peer =>
      if c.hasSecrets && !peer.supportsSessionEnvironment then
        some (s.setTask t (.returned c c.withoutEnv))
      else
        some ((s.setSlot c.key (some (.available conn))).setTask t (.returned c (.muxy conn)))
    | _ => none

/-- What a step can do, one constructor for each branch. -/
inductive Steps (s : MuxyCache τ) : EnsureAct τ → MuxyCache τ → Prop
  | overSsh {t c} (hready : (s.tasks t).ready = true) (hpolicy : c.policy = .ssh) :
    Steps s (.call t c) (s.setTask t (.returned c .ssh))
  | call {t c} (hready : (s.tasks t).ready = true) (hpolicy : c.policy ≠ .ssh) :
    Steps s (.call t c) (s.setTask t (.looking c))
  | lookup {t c} (htask : s.tasks t = .looking c) :
    Steps s (.lookup t) (s.setTask t (found c (s.cache c.key)))
  | alive {t c conn} (htask : s.tasks t = .pinging c conn) :
    Steps s (.ping t true) (s.setTask t (.returned c (.muxy conn)))
  | dead {t c conn} (htask : s.tasks t = .pinging c conn) :
    Steps s (.ping t false) (s.setTask t (.dropping c))
  | remove {t c} (htask : s.tasks t = .dropping c) :
    Steps s (.remove t) ((s.setSlot c.key none).setTask t (.missing c))
  | probed {t c} (htask : s.tasks t = .missing c) (hprobe : c.probeMuxy = true) :
    Steps s (.probe t) (s.setTask t (.connecting c))
  | notInstalled {t c} (htask : s.tasks t = .missing c) (hprobe : c.probeMuxy = false) :
    Steps s (.probe t) ((s.setSlot c.key (some (.unavailable "muxy not installed"))).setTask t
      (.returned c (c.fallbackOrFail "muxy not installed")))
  | connected {t c peer} (htask : s.tasks t = .connecting c) :
    Steps s (.connect t (.connected peer))
      ((s.addConn ⟨c, peer⟩).setTask t (.opened c s.conns.length peer))
  | refused {t c error} (htask : s.tasks t = .connecting c) :
    Steps s (.connect t (.refused error)) (s.setTask t (.refused c (shortReason error)))
  | stopped {t c} (htask : s.tasks t = .connecting c) :
    Steps s (.connect t .stopped) (s.setTask t (.returned c
      (c.fallbackOrFail "the muxy connect task stopped unexpectedly")))
  | storeRefused {t c reason} (htask : s.tasks t = .refused c reason) :
    Steps s (.store t) ((s.setSlot c.key (some (.unavailable reason))).setTask t
      (.returned c (c.fallbackOrFail reason)))
  | noEnv {t c conn peer} (htask : s.tasks t = .opened c conn peer)
      (hsecrets : c.hasSecrets = true) (henv : peer.supportsSessionEnvironment = false) :
    Steps s (.store t) (s.setTask t (.returned c c.withoutEnv))
  | storeOpened {t c conn peer} (htask : s.tasks t = .opened c conn peer)
      (henv : c.hasSecrets = true → peer.supportsSessionEnvironment = true) :
    Steps s (.store t)
      ((s.setSlot c.key (some (.available conn))).setTask t (.returned c (.muxy conn)))

theorem steps_of_step {s s' : MuxyCache τ} {a : EnsureAct τ} (h : step s a = some s') :
    Steps s a s' := by
  cases a with
  | call t c =>
    simp only [step] at h
    obtain ⟨hready, h⟩ := Option.ite_none_right_eq_some.mp h
    rw [← Option.some.inj h]
    split
    next hpolicy => exact .overSsh hready hpolicy
    next hpolicy => exact .call hready hpolicy
  | lookup t =>
    simp only [step] at h
    split at h
    next c htask =>
      cases h
      exact .lookup htask
    next => cases h
  | ping t answers =>
    simp only [step] at h
    split at h
    next c conn htask =>
      cases h
      cases answers with
      | true => exact .alive htask
      | false => exact .dead htask
    next => cases h
  | remove t =>
    simp only [step] at h
    split at h
    next c htask =>
      cases h
      exact .remove htask
    next => cases h
  | probe t =>
    simp only [step] at h
    split at h
    next c htask =>
      split at h
      next hprobe =>
        cases h
        exact .probed htask hprobe
      next hprobe =>
        cases h
        exact .notInstalled htask (eq_false_of_ne_true hprobe)
    next => cases h
  | connect t result =>
    simp only [step] at h
    split at h
    next c htask =>
      cases result with
      | connected peer =>
        cases h
        exact .connected htask
      | refused error =>
        cases h
        exact .refused htask
      | stopped =>
        cases h
        exact .stopped htask
    next => cases h
  | store t =>
    simp only [step] at h
    split at h
    next c reason htask =>
      cases h
      exact .storeRefused htask
    next c conn peer htask =>
      split at h
      next hrefused =>
        cases h
        obtain ⟨hsecrets, henv⟩ := Bool.and_eq_true_iff.mp hrefused
        exact .noEnv htask hsecrets (by simpa using henv)
      next hkept =>
        cases h
        refine .storeOpened htask fun hsecrets => ?_
        simpa [hsecrets] using hkept
    next => cases h

/-- A connection to the host of the call: whoever opened it had found a muxy there, and had the
server take its environment if it was a secret one. -/
def Leads (conns : List HostConnection) (c : EnsureCall) (n : Nat) : Prop :=
  ∃ conn, conns[n]? = some conn ∧ conn.call.key = c.key ∧ conn.call.probeMuxy = true ∧
    conn.call.policy ≠ .ssh ∧
    (conn.call.hasSecrets = true → conn.peer.supportsSessionEnvironment = true)

def Allowed (conns : List HostConnection) (c : EnsureCall) : EnsureOutcome → Prop
  | .muxy n => c.policy ≠ .ssh ∧ Leads conns c n
  | .ssh => c.policy ≠ .muxy
  | .fail _ => c.policy = .muxy

def Stands (conns : List HostConnection) : EnsurePhase → Prop
  | .free => True
  | .looking c | .dropping c | .missing c | .refused c _ => c.policy ≠ .ssh
  | .pinging c n => c.policy ≠ .ssh ∧ Leads conns c n
  | .connecting c => c.policy ≠ .ssh ∧ c.probeMuxy = true
  | .opened c n peer => c.policy ≠ .ssh ∧ c.probeMuxy = true ∧ conns[n]? = some ⟨c, peer⟩
  | .returned c outcome => Allowed conns c outcome

structure Sound (s : MuxyCache τ) : Prop where
  cached : ∀ key n, s.cache key = some (.available n) → ∀ c : EnsureCall, c.key = key → Leads s.conns c n
  tasks : ∀ t, Stands s.conns (s.tasks t)

omit [DecidableEq τ] in
theorem sound_new : Sound (new : MuxyCache τ) := ⟨fun _ _ h => (Option.some_ne_none _ h.symm).elim, fun _ => trivial⟩

section Grow
variable {conns : List HostConnection} {c : EnsureCall} {n : Nat}

theorem Leads.grow (h : Leads conns c n) (conn : HostConnection) : Leads (conns ++ [conn]) c n := by
  obtain ⟨found, hget, hrest⟩ := h
  have hlt := (List.getElem?_eq_some_iff.mp hget).1
  exact ⟨found, (List.getElem?_append_left hlt).trans hget, hrest⟩

theorem Stands.grow {phase : EnsurePhase} (h : Stands conns phase) (conn : HostConnection) :
    Stands (conns ++ [conn]) phase := by
  cases phase with
  | pinging => exact ⟨h.1, h.2.grow conn⟩
  | opened c n peer =>
    have hlt := (List.getElem?_eq_some_iff.mp h.2.2).1
    exact ⟨h.1, h.2.1, (List.getElem?_append_left hlt).trans h.2.2⟩
  | returned c outcome =>
    cases outcome with
    | muxy => exact ⟨h.1, h.2.grow conn⟩
    | ssh | fail => exact h
  | free | looking | dropping | missing | connecting | refused => exact h

theorem allowed_fallback (reason : String) : Allowed conns c (c.fallbackOrFail reason) := by
  rw [EnsureCall.fallbackOrFail]
  split
  next hpolicy => exact hpolicy
  next hpolicy => exact hpolicy

theorem allowed_withoutEnv : Allowed conns c c.withoutEnv := by
  rw [EnsureCall.withoutEnv]
  split
  next hpolicy => exact hpolicy
  next hpolicy => exact hpolicy

end Grow

section Step
variable {s s' : MuxyCache τ} {a : EnsureAct τ}

theorem Sound.setTask (h : Sound s) {t : τ} {phase : EnsurePhase} (hphase : Stands s.conns phase) :
    Sound (s.setTask t phase) := by
  refine ⟨h.cached, fun t' => ?_⟩
  rw [setTask_tasks, Function.update_apply]
  split
  · exact hphase
  · exact h.tasks t'

omit [DecidableEq τ] in
theorem Sound.setSlot (h : Sound s) {key : String} {slot : Option MuxySlot}
    (hslot : ∀ n, slot = some (.available n) → ∀ c : EnsureCall, c.key = key → Leads s.conns c n) :
    Sound (s.setSlot key slot) := by
  refine ⟨fun key' n hkey => ?_, h.tasks⟩
  rw [setSlot_cache, Function.update_apply] at hkey
  split at hkey
  next heq => exact fun c hc => hslot n hkey c (hc.trans heq)
  next => exact h.cached key' n hkey

omit [DecidableEq τ] in
theorem Sound.addConn (h : Sound s) (conn : HostConnection) : Sound (s.addConn conn) :=
  ⟨fun key n hkey c hc => (h.cached key n hkey c hc).grow conn, fun t => (h.tasks t).grow conn⟩

omit [DecidableEq τ] in
theorem stands_of (h : Sound s) {t : τ} {phase : EnsurePhase} (htask : s.tasks t = phase) :
    Stands s.conns phase := htask ▸ h.tasks t

omit [DecidableEq τ] in
/-- A slot without a connection. -/
theorem Sound.clearSlot (h : Sound s) {key : String} {slot : Option MuxySlot}
    (hslot : ∀ n, slot ≠ some (.available n)) : Sound (s.setSlot key slot) :=
  h.setSlot fun n hn => absurd hn (hslot n)

theorem not_available (reason : String) (n : Nat) :
    some (MuxySlot.unavailable reason) ≠ some (.available n) := by simp

omit [DecidableEq τ] in
theorem stands_found (h : Sound s) {c : EnsureCall} (hpolicy : c.policy ≠ .ssh) :
    Stands s.conns (found c (s.cache c.key)) := by
  cases hslot : s.cache c.key with
  | none => exact hpolicy
  | some slot =>
    cases slot with
    | available n => exact ⟨hpolicy, h.cached c.key n hslot c rfl⟩
    | unavailable reason => exact allowed_fallback reason

theorem sound_step (h : Sound s) (hstep : step s a = some s') : Sound s' := by
  cases steps_of_step hstep with
  | overSsh hready hpolicy => exact h.setTask (fun hmuxy => by rw [hpolicy] at hmuxy; cases hmuxy)
  | call hready hpolicy => exact h.setTask hpolicy
  | lookup htask => exact h.setTask (stands_found h (stands_of h htask))
  | alive htask =>
    have hstands := stands_of h htask
    exact h.setTask hstands
  | dead htask =>
    have hstands := stands_of h htask
    exact h.setTask hstands.1
  | remove htask =>
    have hstands := stands_of h htask
    exact (h.clearSlot fun n => (Option.some_ne_none _).symm).setTask hstands
  | probed htask hprobe =>
    have hstands := stands_of h htask
    exact h.setTask ⟨hstands, hprobe⟩
  | notInstalled htask => exact (h.clearSlot (not_available _)).setTask (allowed_fallback _)
  | @connected t c peer htask =>
    obtain ⟨hpolicy, hprobe⟩ := stands_of h htask
    refine (h.addConn ⟨c, peer⟩).setTask ⟨hpolicy, hprobe, ?_⟩
    rw [addConn_conns, List.getElem?_concat_length]
  | refused htask =>
    have hstands := stands_of h htask
    exact h.setTask hstands.1
  | stopped htask => exact h.setTask (allowed_fallback _)
  | storeRefused htask => exact (h.clearSlot (not_available _)).setTask (allowed_fallback _)
  | noEnv htask => exact h.setTask allowed_withoutEnv
  | @storeOpened t c n peer htask henv =>
    obtain ⟨hpolicy, hprobe, hget⟩ := stands_of h htask
    have hleads : ∀ c' : EnsureCall, c'.key = c.key → Leads s.conns c' n :=
      fun c' hc' => ⟨⟨c, peer⟩, hget, hc'.symm, hprobe, hpolicy, henv⟩
    refine (h.setSlot fun n' hn' c' hc' => ?_).setTask ⟨hpolicy, hleads c rfl⟩
    cases hn'
    exact hleads c' hc'

theorem sound_run {acts : List (EnsureAct τ)} (h : Sound s) (hrun : exec step s acts = some s') :
    Sound s' :=
  exec_invariant (fun _ _ _ hs hstep => sound_step hs hstep) h hrun

end Step

end MuxyCache

section Keys

theorem shellCacheKey_eq (spec : SshSpec) : shellCacheKey spec = spec.render := by
  rw [shellCacheKey, SshSpec.render]
  cases spec.port with
  | none => exact String.append_empty.symm
  | some port => rfl

/-- The key tells the destinations apart. -/
theorem spec_of_key {c c' : EnsureCall} (h : c.key = c'.key) : c.host.spec = c'.host.spec := by
  have htext : c.host.spec.render = c'.host.spec.render := by
    rw [← shellCacheKey_eq, ← shellCacheKey_eq]
    exact h
  have hparse := SshSpec.parse_render c.formed
  rw [htext, SshSpec.parse_render c'.formed] at hparse
  exact (Except.ok.inj hparse).symm

end Keys

section Secrets
variable {peer : Peer} {params : StepParams}

/-- What `exec_command` makes of the transport. -/
def execCommand (attempt : Nat → Option MuxyAttempt) : EnsureOutcome → Option MuxyAttempt
  | .muxy conn => attempt conn
  | .ssh => some .fallback
  | .fail _ => some (.done (.failed .transport))

theorem plannedPayload_noEnv (hpeer : peer.supportsSessionEnvironment = false) (henv : params.env ≠ []) :
    ∃ error, plannedPayload peer params = .error error := by
  rw [plannedPayload, checkEnv]
  cases envLimits params.env with
  | error detail => exact ⟨_, rfl⟩
  | ok u =>
    rw [if_pos ⟨henv, hpeer⟩]
    exact ⟨_, rfl⟩

/-- A step with an environment is refused before any request where the server takes none. -/
theorem attempt_noEnv (net : Network) (moments : List Moment) (policy : TransportPolicy)
    (explainExit : Option ExplainExit) (hpeer : peer.supportsSessionEnvironment = false)
    (henv : params.env ≠ []) :
    attemptStep peer params net moments policy explainExit .runs =
        some (if policy = .auto then .fallback else .done (.failed .transport)) ∧
      attemptLog peer params net moments .runs = [] := by
  obtain ⟨error, herror⟩ := plannedPayload_noEnv hpeer henv
  have hstart : startStep peer params net.answers =
      ⟨⟨0, true⟩, none, .done (.error ⟨error, none, false⟩), [], []⟩ := by
    rw [startStep, herror]
  have hdone := @done_turns peer params _ _ moments (congrArg SessionRun.phase hstart)
  obtain ⟨hphase, hlog⟩ := hdone
  constructor
  · simp only [attemptStep, Muxy.runStep, hphase, answerEnd, true_and]
  · rw [attemptLog, Muxy.runStep, hlog, hstart]

end Secrets

section Runs
variable {τ : Type*} [DecidableEq τ]

/-- What a call is answered with. -/
def Answered (conns : List HostConnection) (c : EnsureCall) : EnsureOutcome → Prop
  | .ssh => c.policy ≠ .muxy
  | .fail _ => c.policy = .muxy
  | .muxy n => c.policy ≠ .ssh ∧ ∃ conn, conns[n]? = some conn ∧
      conn.call.host.spec = c.host.spec ∧ conn.call.probeMuxy = true ∧
      (conn.call.hasSecrets = true → conn.peer.supportsSessionEnvironment = true) ∧
      (conn.peer.supportsSessionEnvironment = false → ∀ params net moments explainExit,
        params.env ≠ [] →
          attemptLog conn.peer params net moments .runs = [] ∧
          execCommand (fun _ =>
            attemptStep conn.peer params net moments c.policy explainExit .runs) (.muxy n) =
            execCommand (fun _ => none) c.withoutEnv)

/-- Every interleaving of the calls of a run. A call gets a connection to its own destination or
what its policy allows in its place; and a step with an environment that is handed a connection
whose server takes none ends as it would if the connection had just been opened, with nothing
sent. -/
theorem ensure_any_order (acts : List (EnsureAct τ)) (s : MuxyCache τ)
    (hrun : exec MuxyCache.step .new acts = some s) (t : τ) (c : EnsureCall)
    (outcome : EnsureOutcome) (htask : s.tasks t = .returned c outcome) :
    Answered s.conns c outcome := by
  have hallowed : MuxyCache.Allowed s.conns c outcome :=
    MuxyCache.stands_of (MuxyCache.sound_run MuxyCache.sound_new hrun) htask
  cases outcome with
  | ssh => exact hallowed
  | fail message => exact hallowed
  | muxy n =>
    obtain ⟨hpolicy, conn, hget, hkey, hprobe, -, hsecrets⟩ := hallowed
    refine ⟨hpolicy, conn, hget, spec_of_key hkey, hprobe, hsecrets, ?_⟩
    intro hpeer params net moments explainExit henv
    obtain ⟨hattempt, hlog⟩ := attempt_noEnv net moments c.policy explainExit hpeer henv
    refine ⟨hlog, ?_⟩
    rw [execCommand, hattempt, EnsureCall.withoutEnv]
    cases hcase : c.policy with
    | auto => rfl
    | muxy => rfl
    | ssh => exact absurd hcase hpolicy

/-- A call for a server `web`, with or without secrets. -/
def webCall (probeMuxy hasSecrets : Bool) : EnsureCall where
  host := ⟨"web", ⟨none, "web", none⟩⟩
  formed := ⟨fun _ h => (Option.some_ne_none _ h.symm).elim, by decide,
    fun _ h => (Option.some_ne_none _ h.symm).elim⟩
  probeMuxy := probeMuxy
  hasSecrets := hasSecrets
  policy := .auto

/-- A step without secrets connects to a server that takes no environments, and a step with secrets
finds the connection. -/
def reuseActs : List (EnsureAct Nat) :=
  [.call 0 (webCall true false), .lookup 0, .probe 0, .connect 0 (.connected ⟨"web", "/root", false⟩),
    .call 1 (webCall true true), .store 0, .lookup 1, .ping 1 true]

theorem ensure_any_order_reuse : ∃ s, exec MuxyCache.step .new reuseActs = some s ∧
    Answered s.conns (webCall true true) (.muxy 0) :=
  ⟨_, rfl, ensure_any_order reuseActs _ rfl 1 (webCall true true) (.muxy 0) rfl⟩

end Runs

section Settled
variable {τ : Type*} [DecidableEq τ] {key : String} {slot : MuxySlot} {s₀ s s' : MuxyCache τ}
  {a : EnsureAct τ}

/-- No call for the key is about to write the slot. -/
def InLine (key : String) (slot : MuxySlot) : EnsurePhase → Prop
  | .free | .looking _ | .returned _ _ => True
  | .pinging c n => c.key = key → slot = .available n
  | .dropping c | .missing c | .connecting c | .opened c _ _ | .refused c _ => c.key ≠ key

/-- What is known of a host, with no call on the way that may change it. -/
structure Settled (key : String) (slot : MuxySlot) (s : MuxyCache τ) : Prop where
  cached : s.cache key = some slot
  tasks : ∀ t, InLine key slot (s.tasks t)

def answerOf (c : EnsureCall) : MuxySlot → EnsureOutcome
  | .available n => .muxy n
  | .unavailable reason => c.fallbackOrFail reason

def connsTo (key : String) (s : MuxyCache τ) : List HostConnection :=
  s.conns.filter fun conn => conn.call.key = key

/-- Since then: the slot is what it was, no connection was opened to the host, and every call was
answered with what the slot says. -/
structure Kept (key : String) (slot : MuxySlot) (s₀ s : MuxyCache τ) : Prop where
  settled : Settled key slot s
  conns : connsTo key s = connsTo key s₀
  answered : ∀ t c outcome, s.tasks t = .returned c outcome → c.key = key → c.policy ≠ .ssh →
    outcome = answerOf c slot ∨ s₀.tasks t = .returned c outcome

/-- No ping of a connection to the host fails. -/
def Answers (key : String) (s : MuxyCache τ) (a : EnsureAct τ) : Prop :=
  ∀ t c n, a = .ping t false → s.tasks t = .pinging c n → c.key ≠ key

theorem Kept.setTask (h : Kept key slot s₀ s) {t : τ} {phase : EnsurePhase}
    (hline : InLine key slot phase)
    (hanswer : ∀ c outcome, phase = .returned c outcome → c.key = key → c.policy ≠ .ssh →
      outcome = answerOf c slot) : Kept key slot s₀ (s.setTask t phase) := by
  refine ⟨⟨h.settled.cached, fun t' => ?_⟩, h.conns, fun t' c outcome ht' hkey hpolicy => ?_⟩
  · rw [MuxyCache.setTask_tasks, Function.update_apply]
    split
    · exact hline
    · exact h.settled.tasks t'
  · rw [MuxyCache.setTask_tasks, Function.update_apply] at ht'
    split at ht'
    · exact .inl (hanswer c outcome ht' hkey hpolicy)
    · exact h.answered t' c outcome ht' hkey hpolicy

/-- A phase that is no answer. -/
theorem Kept.move (h : Kept key slot s₀ s) {t : τ} {phase : EnsurePhase}
    (hline : InLine key slot phase) (hphase : ∀ c outcome, phase ≠ .returned c outcome) :
    Kept key slot s₀ (s.setTask t phase) :=
  h.setTask hline fun c outcome hreturned => absurd hreturned (hphase c outcome)

/-- A call for another host is answered. -/
theorem Kept.answerOther (h : Kept key slot s₀ s) {t : τ} {c : EnsureCall} {outcome : EnsureOutcome}
    (hkey : c.key ≠ key) : Kept key slot s₀ (s.setTask t (.returned c outcome)) :=
  h.setTask trivial fun c' outcome' hreturned hkey' => by
    cases hreturned
    exact absurd hkey' hkey

omit [DecidableEq τ] in
theorem Kept.setSlot (h : Kept key slot s₀ s) {other : String} {slot' : Option MuxySlot}
    (hother : other ≠ key) : Kept key slot s₀ (s.setSlot other slot') :=
  ⟨⟨(Function.update_of_ne hother.symm _ _).trans h.settled.cached, h.settled.tasks⟩, h.conns,
    h.answered⟩

omit [DecidableEq τ] in
theorem Kept.addConn (h : Kept key slot s₀ s) {conn : HostConnection} (hkey : conn.call.key ≠ key) :
    Kept key slot s₀ (s.addConn conn) := by
  refine ⟨⟨h.settled.cached, h.settled.tasks⟩, ?_, h.answered⟩
  rw [connsTo, MuxyCache.addConn_conns, List.filter_append, List.filter_singleton,
    decide_eq_false hkey]
  exact (List.append_nil _).trans h.conns

omit [DecidableEq τ] in
theorem Kept.lineOf (h : Kept key slot s₀ s) {t : τ} {phase : EnsurePhase}
    (htask : s.tasks t = phase) : InLine key slot phase := htask ▸ h.settled.tasks t

theorem kept_lookup (h : Kept key slot s₀ s) {t : τ} {c : EnsureCall} :
    Kept key slot s₀ (s.setTask t (found c (s.cache c.key))) := by
  by_cases hkey : c.key = key
  · rw [hkey, h.settled.cached]
    cases hslot : slot with
    | available n =>
      rw [hslot] at h
      exact h.move (fun _ => rfl) fun _ _ => nofun
    | unavailable reason =>
      rw [hslot] at h
      refine h.setTask trivial fun c' outcome hreturned _ _ => ?_
      cases hreturned
      rfl
  · cases s.cache c.key with
    | none => exact h.move hkey fun _ _ => nofun
    | some found =>
      cases found with
      | available n => exact h.move (fun heq => absurd heq hkey) fun _ _ => nofun
      | unavailable reason => exact h.answerOther hkey

theorem kept_step (h : Kept key slot s₀ s) (hping : Answers key s a)
    (hstep : MuxyCache.step s a = some s') : Kept key slot s₀ s' := by
  cases MuxyCache.steps_of_step hstep with
  | @overSsh t c hready hpolicy =>
    refine h.setTask trivial fun c' outcome hreturned _ hne => ?_
    cases hreturned
    exact absurd hpolicy hne
  | call hready hpolicy => exact h.move trivial fun _ _ => nofun
  | lookup htask => exact kept_lookup h
  | @alive t c n htask =>
    have hline := h.lineOf htask
    refine h.setTask trivial fun c' outcome hreturned hkey _ => ?_
    cases hreturned
    rw [hline hkey]
    rfl
  | @dead t c n htask => exact h.move (hping t c n rfl htask) fun _ _ => nofun
  | remove htask =>
    have hline := h.lineOf htask
    exact (h.setSlot hline).move hline fun _ _ => nofun
  | probed htask hprobe =>
    have hline := h.lineOf htask
    exact h.move hline fun _ _ => nofun
  | notInstalled htask hprobe =>
    have hline := h.lineOf htask
    exact (h.setSlot hline).answerOther hline
  | @connected t c peer htask =>
    have hline := h.lineOf htask
    exact (@Kept.addConn τ key slot s₀ s h ⟨c, peer⟩ hline).move hline fun _ _ => nofun
  | refused htask =>
    have hline := h.lineOf htask
    exact h.move hline fun _ _ => nofun
  | stopped htask =>
    have hline := h.lineOf htask
    exact h.answerOther hline
  | storeRefused htask =>
    have hline := h.lineOf htask
    exact (h.setSlot hline).answerOther hline
  | noEnv htask =>
    have hline := h.lineOf htask
    exact h.answerOther hline
  | storeOpened htask =>
    have hline := h.lineOf htask
    exact (h.setSlot hline).answerOther hline

omit [DecidableEq τ] in
theorem kept_refl (h : Settled key slot s₀) : Kept key slot s₀ s₀ :=
  ⟨h, rfl, fun _ _ _ htask _ _ => .inr htask⟩

omit [DecidableEq τ] in
/-- Nothing is pinged for a host that is known to be unavailable. -/
theorem answers_of_unavailable {reason : String} (h : Settled key (.unavailable reason) s) :
    Answers key s a := by
  intro t c n _ htask hkey
  have hline := h.tasks t
  rw [htask] at hline
  cases hline hkey

/-- What is known of a host stays so for the rest of the run: a connection as long as it answers its
pings, and that there is none for good. No call connects again. -/
theorem settled_stays (key : String) (slot : MuxySlot) (s₀ s : MuxyCache τ) (acts : List (EnsureAct τ))
    (hsettled : Settled key slot s₀) (hrun : exec MuxyCache.step s₀ acts = some s)
    (hping : (∃ reason, slot = .unavailable reason) ∨ Along MuxyCache.step (Answers key) s₀ acts) :
    Kept key slot s₀ s := by
  rcases hping with ⟨reason, rfl⟩ | hping
  · exact exec_invariant (fun m a m' hm hstep =>
      kept_step hm (answers_of_unavailable hm.settled) hstep) (kept_refl hsettled) hrun
  · exact exec_keeps (fun m a m' hm hok hstep => kept_step hm hok hstep) hping (kept_refl hsettled) hrun

/-- The probe sees no muxy on the server. -/
def absentActs : List (EnsureAct Nat) := [.call 0 (webCall false false), .lookup 0, .probe 0]

theorem settled_stays_absent : ∃ s₀ s, exec MuxyCache.step .new absentActs = some s₀ ∧
    exec MuxyCache.step s₀ [.call 1 (webCall true true), .lookup 1] = some s ∧
      Kept (webCall false false).key (.unavailable "muxy not installed") s₀ s := by
  refine ⟨_, _, rfl, rfl, settled_stays _ _ _ _ [.call 1 (webCall true true), .lookup 1] ⟨rfl, fun t => ?_⟩
    rfl (.inl ⟨_, rfl⟩)⟩
  cases t with
  | zero => exact trivial
  | succ t => exact trivial

end Settled

end Shellflow.MuxyEnsure
