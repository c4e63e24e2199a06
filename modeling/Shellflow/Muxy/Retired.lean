import Mathlib.Logic.Function.Basic
import Mathlib.Tactic.Simps.Basic
import Shellflow.Lib.Runs
import Shellflow.Muxy.Pump

/-! The table of the channels of one connection, shared by the pump and the threads of the steps.
An action takes one lock once; the pump takes an entry out of the table, works on it without a lock
and puts it back. -/
namespace Shellflow
open Runs

/-- A frame on its way through `handle_frame`; frames are numbered in the order they begin. -/
structure FrameJob where
  number : Nat
  channel : Nat
  screen : Screen String
  client : Client

/-- Where the pump is in `handle_frame`. -/
inductive PumpPhase
  | idle
  | taken (job : FrameJob) (state : ChannelState String)
  | live (job : FrameJob) (state : ChannelState String)
  | forwarded (job : FrameJob) (state : ChannelState String)
  | keeping (job : FrameJob) (state : ChannelState String)

namespace PumpPhase

def job? : PumpPhase → Option FrameJob
  | idle => none
  | taken job _ => some job
  | live job _ => some job
  | forwarded job _ => some job
  | keeping job _ => some job

/-- The pump works for the channel. -/
def On (c : Nat) (p : PumpPhase) : Prop := p.job?.map FrameJob.channel = some c

@[simp] theorem not_on_idle (c : Nat) : ¬ On c idle := nofun

@[simp] theorem on_taken {c : Nat} {job : FrameJob} {state : ChannelState String} :
    On c (taken job state) ↔ job.channel = c := Option.some_inj

@[simp] theorem on_live {c : Nat} {job : FrameJob} {state : ChannelState String} :
    On c (live job state) ↔ job.channel = c := Option.some_inj

@[simp] theorem on_forwarded {c : Nat} {job : FrameJob} {state : ChannelState String} :
    On c (forwarded job state) ↔ job.channel = c := Option.some_inj

@[simp] theorem on_keeping {c : Nat} {job : FrameJob} {state : ChannelState String} :
    On c (keeping job state) ↔ job.channel = c := Option.some_inj

/-- The pump has seen that the channel was not retired. -/
def checked : PumpPhase → Bool
  | idle | taken _ _ => false
  | live _ _ | forwarded _ _ | keeping _ _ => true

end PumpPhase

/-- Where the thread of a step is in `register` or `unregister`. -/
inductive ThreadPhase
  | free
  | registering (channel : Nat) (marker : String)
  | unregistering (channel : Nat)

/-- A message on its way to the step that owns the channel. -/
structure Forwarded where
  frame : Nat
  channel : Nat
  msg : PumpMsg String

structure PumpTable (τ : Type*) where
  channels : Nat → Option (ChannelState String)
  retired : Nat → Bool
  pump : PumpPhase
  threads : τ → ThreadPhase
  frames : Nat
  sent : List Forwarded

inductive TableAct (τ : Type*)
  /- `handle_frame`, lock by lock. -/
  | take (channel : Nat) (screen : Screen String) (client : Client)
  | look
  | forward
  | consume
  | putBack
  /- `register` -/
  | clearRetired (thread : τ) (channel : Nat) (marker : String)
  | insert (thread : τ) (channel : Nat)
  /- `unregister` -/
  | dropEntry (thread : τ) (channel : Nat)
  | retire (thread : τ) (channel : Nat)

/-- The action belongs to a registration of the channel. -/
def TableAct.registers {τ : Type*} (c : Nat) : TableAct τ → Prop
  | clearRetired _ channel _ => channel = c
  | insert _ channel => channel = c
  | _ => False

namespace PumpTable
variable {τ : Type*}

def new : PumpTable τ := ⟨fun _ => none, fun _ => false, .idle, fun _ => .free, 0, []⟩

@[simps] def setEntry (s : PumpTable τ) (c : Nat) (state : Option (ChannelState String)) : PumpTable τ :=
  { s with channels := Function.update s.channels c state }

@[simps] def setRetired (s : PumpTable τ) (c : Nat) (b : Bool) : PumpTable τ :=
  { s with retired := Function.update s.retired c b }

@[simps] def setPump (s : PumpTable τ) (pump : PumpPhase) : PumpTable τ := { s with pump := pump }

/-- A frame begins: its entry leaves the table, or it is dropped. -/
def begin (s : PumpTable τ) (c : Nat) (screen : Screen String) (client : Client) : PumpTable τ :=
  let s' := { s with frames := s.frames + 1 }
  match s.channels c with
  | some state => (s'.setEntry c none).setPump (.taken ⟨s.frames, c, screen, client⟩ state)
  | none => s'

@[simps] def send (s : PumpTable τ) (job : FrameJob) (msgs : List (PumpMsg String)) : PumpTable τ :=
  { s with sent := s.sent ++ msgs.map fun msg => ⟨job.number, job.channel, msg⟩ }

@[simps] def setThread [DecidableEq τ] (s : PumpTable τ) (t : τ) (phase : ThreadPhase) : PumpTable τ :=
  { s with threads := Function.update s.threads t phase }

def step [DecidableEq τ] (s : PumpTable τ) : TableAct τ → Option (PumpTable τ)
  | .take c screen client =>
    match s.pump with
    | .idle => some (s.begin c screen client)
    | _ => none
  | .look =>
    match s.pump with
    | .taken job state =>
      some (s.setPump (if s.retired job.channel then .idle else .live job state))
    | _ => none
  | .forward =>
    match s.pump with
    | .live job state =>
      let (state', msgs) := handleFrame state job.screen job.client
      some ((s.send job msgs).setPump (.forwarded job state'))
    | _ => none
  | .consume =>
    match s.pump with
    | .forwarded job state =>
      if s.retired job.channel then some ((s.setRetired job.channel false).setPump .idle)
      else some (s.setPump (.keeping job state))
    | _ => none
  | .putBack =>
    match s.pump with
    | .keeping job state => some ((s.setEntry job.channel (some state)).setPump .idle)
    | _ => none
  | .clearRetired t c marker =>
    match s.threads t with
    | .free => some ((s.setRetired c false).setThread t (.registering c marker))
    | _ => none
  | .insert t c =>
    match s.threads t with
    | .registering c' marker =>
      if c' = c then some ((s.setEntry c (some (.register marker))).setThread t .free) else none
    | _ => none
  | .dropEntry t c =>
    match s.threads t with
    | .free => some ((s.setEntry c none).setThread t (.unregistering c))
    | _ => none
  | .retire t c =>
    match s.threads t with
    | .unregistering c' =>
      if c' = c then some ((s.setRetired c true).setThread t .free) else none
    | _ => none

/-- A registered channel and the pump do not both have the entry. -/
def Single (c : Nat) (s : PumpTable τ) : Prop := s.channels c = none ∨ ¬ s.pump.On c

/-- The channel is marked, or nothing is left of it. -/
def Marked (c : Nat) (s : PumpTable τ) : Prop :=
  s.retired c = true ∨ s.channels c = none ∧ ¬ s.pump.On c

/-- The frame that the pump works on has begun. -/
def Numbered (s : PumpTable τ) : Prop := ∀ job, s.pump.job? = some job → job.number < s.frames

/-- The frames that passed the check are older than the frame `n`. -/
def Early (c n : Nat) (s : PumpTable τ) : Prop :=
  ∀ job, s.pump.job? = some job → s.pump.checked = true → job.channel = c → job.number < n

/-- What was sent for the channel since `base` came from frames older than `n`. -/
def SentEarly (c n : Nat) (base : List Forwarded) (s : PumpTable τ) : Prop :=
  ∃ later, s.sent = base ++ later ∧ ∀ m ∈ later, m.channel = c → m.frame < n

/-- Since `unregister` returned before the frame `n`. -/
structure Silenced (c n : Nat) (base : List Forwarded) (s : PumpTable τ) : Prop where
  single : Single c s
  marked : Marked c s
  early : Early c n s
  sent : SentEarly c n base s

/-- The entry is out of the table, and the pump will not put it back. -/
def Gone (c : Nat) (s : PumpTable τ) : Prop :=
  s.channels c = none ∧ (s.pump.On c → s.retired c = true ∧ s.pump.checked = false)

/-- A marked channel that the pump works for carries the mark. -/
theorem Marked.retired {c : Nat} {s : PumpTable τ} (h : Marked c s) (hon : s.pump.On c) :
    s.retired c = true :=
  h.resolve_right fun hc => hc.2 hon

theorem Gone.not_on {c : Nat} {s : PumpTable τ} (h : Gone c s) (hchecked : s.pump.checked = true) :
    ¬ s.pump.On c := fun hon => by
  rw [(h.2 hon).2] at hchecked
  cases hchecked

variable [DecidableEq τ]

/-- What a step can do, one constructor for each branch. -/
inductive Steps (s : PumpTable τ) : TableAct τ → PumpTable τ → Prop
  | found {c screen client state} (hpump : s.pump = .idle) (hentry : s.channels c = some state) :
    Steps s (.take c screen client) (({ s with frames := s.frames + 1 }.setEntry c none).setPump
      (.taken ⟨s.frames, c, screen, client⟩ state))
  | unknown {c screen client} (hpump : s.pump = .idle) (hentry : s.channels c = none) :
    Steps s (.take c screen client) { s with frames := s.frames + 1 }
  | refused {job state} (hpump : s.pump = .taken job state) (hretired : s.retired job.channel = true) :
    Steps s .look (s.setPump .idle)
  | passed {job state} (hpump : s.pump = .taken job state)
      (hretired : s.retired job.channel = false) : Steps s .look (s.setPump (.live job state))
  | forwarded {job state} (hpump : s.pump = .live job state) :
    Steps s .forward ((s.send job (handleFrame state job.screen job.client).2).setPump
      (.forwarded job (handleFrame state job.screen job.client).1))
  | dropped {job state} (hpump : s.pump = .forwarded job state)
      (hretired : s.retired job.channel = true) :
    Steps s .consume ((s.setRetired job.channel false).setPump .idle)
  | kept {job state} (hpump : s.pump = .forwarded job state)
      (hretired : s.retired job.channel = false) : Steps s .consume (s.setPump (.keeping job state))
  | putBack {job state} (hpump : s.pump = .keeping job state) :
    Steps s .putBack ((s.setEntry job.channel (some state)).setPump .idle)
  | clearRetired {t c marker} : Steps s (.clearRetired t c marker)
      ((s.setRetired c false).setThread t (.registering c marker))
  | insert {t c marker} : Steps s (.insert t c)
      ((s.setEntry c (some (.register marker))).setThread t .free)
  | dropEntry {t c} : Steps s (.dropEntry t c) ((s.setEntry c none).setThread t (.unregistering c))
  | retire {t c} : Steps s (.retire t c) ((s.setRetired c true).setThread t .free)

theorem steps_of_step {s s' : PumpTable τ} {a : TableAct τ} (h : step s a = some s') :
    Steps s a s' := by
  cases a with
  | take c screen client =>
    simp only [step] at h
    split at h
    · next hpump =>
      cases h
      rw [begin]
      cases hentry : s.channels c with
      | none => exact .unknown hpump hentry
      | some state => exact .found hpump hentry
    · cases h
  | look =>
    simp only [step] at h
    split at h
    · next job state hpump =>
      cases h
      cases hretired : s.retired job.channel with
      | false => exact .passed hpump hretired
      | true => exact .refused hpump hretired
    · cases h
  | forward =>
    simp only [step] at h
    split at h
    · next hpump =>
      cases h
      exact .forwarded hpump
    · cases h
  | consume =>
    simp only [step] at h
    split at h
    · next job state hpump =>
      cases hretired : s.retired job.channel with
      | false =>
        rw [hretired] at h
        cases h
        exact .kept hpump hretired
      | true =>
        rw [hretired] at h
        cases h
        exact .dropped hpump hretired
    · cases h
  | putBack =>
    simp only [step] at h
    split at h
    · next hpump =>
      cases h
      exact .putBack hpump
    · cases h
  | clearRetired t c marker =>
    simp only [step] at h
    split at h
    · cases h
      exact .clearRetired
    · cases h
  | insert t c =>
    simp only [step] at h
    split at h
    · split at h
      · cases h
        exact .insert
      · cases h
    · cases h
  | dropEntry t c =>
    simp only [step] at h
    split at h
    · cases h
      exact .dropEntry
    · cases h
  | retire t c =>
    simp only [step] at h
    split at h
    · split at h
      · cases h
        exact .retire
      · cases h
    · cases h

theorem single_step {c : Nat} {s s' : PumpTable τ} {a : TableAct τ} (h : Single c s)
    (hok : ¬ a.registers c) (hstep : step s a = some s') : Single c s' := by
  cases steps_of_step hstep with
  | @found d screen client state hpump hentry =>
    by_cases hd : d = c
    · simp [Single, hd]
    · simp [Single, hd]
  | unknown hpump hentry => exact h
  | refused hpump hretired => simp [Single]
  | passed hpump hretired => simpa [Single, hpump] using h
  | forwarded hpump => simpa [Single, hpump] using h
  | dropped hpump hretired => simp [Single]
  | kept hpump hretired => simpa [Single, hpump] using h
  | putBack hpump => simp [Single]
  | clearRetired => exact h
  | insert =>
    have hne := Ne.symm hok
    simpa [Single, Function.update_of_ne hne] using h
  | @dropEntry t d =>
    by_cases hd : d = c
    · simp [Single, hd]
    · simpa [Single, Function.update_of_ne (Ne.symm hd)] using h
  | retire => exact h

theorem numbered_step {s s' : PumpTable τ} {a : TableAct τ} (h : Numbered s)
    (hstep : step s a = some s') : Numbered s' := by
  have hold {job : FrameJob} (hjob : s.pump.job? = some job) {p : PumpPhase}
      (hp : p.job? = some job) : ∀ k, p.job? = some k → k.number < s.frames := by
    intro k hk
    rw [hp, Option.some_inj] at hk
    exact hk ▸ h job hjob
  cases steps_of_step hstep with
  | found hpump hentry =>
    intro k hk
    cases hk
    exact Nat.lt_succ_self s.frames
  | unknown hpump hentry => exact fun k hk => Nat.lt_succ_of_lt (h k hk)
  | refused hpump hretired => exact nofun
  | passed hpump hretired => exact hold (by rw [hpump]; rfl) rfl
  | forwarded hpump => exact hold (by rw [hpump]; rfl) rfl
  | dropped hpump hretired => exact nofun
  | kept hpump hretired => exact hold (by rw [hpump]; rfl) rfl
  | putBack hpump => exact nofun
  | clearRetired => exact h
  | insert => exact h
  | dropEntry => exact h
  | retire => exact h

section Retiring
variable {c n : Nat} {base : List Forwarded} {s s' : PumpTable τ} {a : TableAct τ}

theorem marked_step (hsingle : Single c s) (h : Marked c s) (hok : ¬ a.registers c)
    (hstep : step s a = some s') : Marked c s' := by
  cases steps_of_step hstep with
  | @found d screen client state hpump hentry =>
    by_cases hd : d = c
    · subst hd
      exact .inl (h.resolve_right fun hc => by rw [hentry] at hc; cases hc.1)
    · simpa [Marked, Function.update_of_ne (Ne.symm hd), hd, hpump] using h
  | unknown hpump hentry => exact h
  | refused hpump hretired =>
    refine h.imp_right fun hc => ⟨hc.1, by simp⟩
  | passed hpump hretired => simpa [Marked, hpump] using h
  | forwarded hpump => simpa [Marked, hpump] using h
  | @dropped job state hpump hretired =>
    by_cases hjob : job.channel = c
    · have hnone : s.channels c = none := hsingle.resolve_right fun hc => hc (by simpa [hpump])
      exact .inr ⟨hnone, by simp⟩
    · simpa [Marked, hpump, Function.update_of_ne (Ne.symm hjob), hjob] using h
  | kept hpump hretired => simpa [Marked, hpump] using h
  | @putBack job state hpump =>
    by_cases hjob : job.channel = c
    · exact .inl (h.retired (by simpa [hpump]))
    · simpa [Marked, hpump, Function.update_of_ne (Ne.symm hjob), hjob] using h
  | clearRetired =>
    have hne := Ne.symm hok
    simpa [Marked, Function.update_of_ne hne] using h
  | insert =>
    have hne := Ne.symm hok
    simpa [Marked, Function.update_of_ne hne] using h
  | @dropEntry t d =>
    by_cases hd : d = c
    · exact h.imp_right fun hc => ⟨by simp [hd], hc.2⟩
    · simpa [Marked, Function.update_of_ne (Ne.symm hd)] using h
  | @retire t d =>
    by_cases hd : d = c
    · exact .inl (by simp [hd])
    · simpa [Marked, Function.update_of_ne (Ne.symm hd)] using h

/-- No frame of a marked channel passes the check. -/
theorem early_step (hmarked : Marked c s) (h : Early c n s) (hstep : step s a = some s') :
    Early c n s' := by
  cases steps_of_step hstep with
  | found hpump hentry => exact fun _ _ hchecked => absurd hchecked Bool.false_ne_true
  | unknown hpump hentry => exact h
  | refused hpump hretired => exact nofun
  | @passed job state hpump hretired =>
    intro k hk _ hc
    cases hk
    rw [hc, hmarked.retired (by simpa [hpump])] at hretired
    cases hretired
  | @forwarded job state hpump =>
    intro k hk _ hc
    cases hk
    exact h job (by rw [hpump]; rfl) (by rw [hpump]; rfl) hc
  | dropped hpump hretired => exact nofun
  | @kept job state hpump hretired =>
    intro k hk _ hc
    cases hk
    exact h job (by rw [hpump]; rfl) (by rw [hpump]; rfl) hc
  | putBack hpump => exact nofun
  | clearRetired => exact h
  | insert => exact h
  | dropEntry => exact h
  | retire => exact h

theorem sentEarly_step (hearly : Early c n s) (h : SentEarly c n base s)
    (hstep : step s a = some s') : SentEarly c n base s' := by
  cases steps_of_step hstep with
  | @forwarded job state hpump =>
    obtain ⟨later, hsent, hlater⟩ := h
    refine ⟨later ++ (handleFrame state job.screen job.client).2.map fun msg =>
      ⟨job.number, job.channel, msg⟩, by simp [hsent], ?_⟩
    intro m hm hc
    cases List.mem_append.mp hm with
    | inl hm => exact hlater m hm hc
    | inr hm =>
      obtain ⟨msg, -, rfl⟩ := List.mem_map.mp hm
      exact hearly job (by rw [hpump]; rfl) (by rw [hpump]; rfl) hc
  | _ => exact h

theorem silenced_step (h : Silenced c n base s) (hok : ¬ a.registers c)
    (hstep : step s a = some s') : Silenced c n base s' where
  single := single_step h.single hok hstep
  marked := marked_step h.single h.marked hok hstep
  early := early_step h.marked h.early hstep
  sent := sentEarly_step h.early h.sent hstep

/-- The next frame of a silenced channel takes its entry away. -/
theorem gone_take (h : Marked c s) {screen : Screen String} {client : Client}
    (hstep : step s (.take c screen client) = some s') : Gone c s' := by
  cases steps_of_step hstep with
  | found hpump hentry =>
    have hretired : s.retired c = true := h.resolve_right fun hc => by rw [hentry] at hc; cases hc.1
    exact ⟨by simp, fun _ => ⟨hretired, rfl⟩⟩
  | unknown hpump hentry => exact ⟨hentry, fun hon => by simp [hpump] at hon⟩

theorem gone_step (h : Gone c s) (hok : ¬ a.registers c) (hstep : step s a = some s') :
    Gone c s' := by
  cases steps_of_step hstep with
  | @found d screen client state hpump hentry =>
    have hd : d ≠ c := fun hd => by rw [hd, h.1] at hentry; cases hentry
    simpa [Gone, Function.update_of_ne hd.symm, hd] using h.1
  | unknown hpump hentry => exact h
  | refused hpump hretired => exact ⟨h.1, fun hon => by simp at hon⟩
  | @passed job state hpump hretired =>
    have hjob : job.channel ≠ c := fun hjob => by
      rw [hjob, (h.2 (by simpa [hpump])).1] at hretired
      cases hretired
    simpa [Gone, hjob] using h.1
  | @forwarded job state hpump =>
    have hjob : job.channel ≠ c := fun hjob => h.not_on (by rw [hpump]; rfl) (by simpa [hpump])
    simpa [Gone, hjob] using h.1
  | dropped hpump hretired => exact ⟨h.1, fun hon => by simp at hon⟩
  | @kept job state hpump hretired =>
    have hjob : job.channel ≠ c := fun hjob => h.not_on (by rw [hpump]; rfl) (by simpa [hpump])
    simpa [Gone, hjob] using h.1
  | @putBack job state hpump =>
    have hjob : job.channel ≠ c := fun hjob => h.not_on (by rw [hpump]; rfl) (by simpa [hpump])
    exact ⟨by simpa [Function.update_of_ne (Ne.symm hjob)] using h.1, fun hon => by simp at hon⟩
  | clearRetired =>
    have hne := Ne.symm hok
    simpa [Gone, Function.update_of_ne hne] using h
  | insert =>
    have hne := Ne.symm hok
    simpa [Gone, Function.update_of_ne hne] using h
  | @dropEntry t d =>
    by_cases hd : d = c
    · exact ⟨by simp [hd], h.2⟩
    · simpa [Gone, Function.update_of_ne (Ne.symm hd)] using h
  | @retire t d =>
    by_cases hd : d = c
    · exact ⟨h.1, fun hon => ⟨by simp [hd], (h.2 hon).2⟩⟩
    · simpa [Gone, Function.update_of_ne (Ne.symm hd)] using h

theorem silenced_exec {post : List (TableAct τ)} (h : Silenced c n base s)
    (hpost : ∀ a ∈ post, ¬ a.registers c) (hrun : exec step s post = some s') :
    Silenced c n base s' :=
  exec_keeps (fun _ _ _ => silenced_step) (along_of_forall fun a ha _ => hpost a ha) h hrun

theorem gone_exec {post : List (TableAct τ)} (h : Gone c s) (hpost : ∀ a ∈ post, ¬ a.registers c)
    (hrun : exec step s post = some s') : Gone c s' :=
  exec_keeps (fun _ _ _ => gone_step) (along_of_forall fun a ha _ => hpost a ha) h hrun

end Retiring

/-- `unregister` returned: whatever the pump was doing, the channel is silenced. -/
theorem silenced_unregister {pre mid : List (TableAct τ)} {t : τ} {c : Nat} {s : PumpTable τ}
    (hmid : ∀ a ∈ mid, ¬ a.registers c)
    (hrun : exec step new (pre ++ .dropEntry t c :: (mid ++ [.retire t c])) = some s) :
    Silenced c s.frames s.sent s := by
  have hnumbered : Numbered s := exec_invariant (fun _ _ _ => numbered_step) (fun _ h => by cases h) hrun
  obtain ⟨s₀, -, hrun⟩ := exec_append.mp hrun
  obtain ⟨s₁, hdrop, hrun⟩ := exec_cons.mp hrun
  obtain ⟨s₂, hmidrun, hrun⟩ := exec_append.mp hrun
  obtain ⟨s₃, hretire, hrun⟩ := exec_cons.mp hrun
  cases hrun
  have hsingle : Single c s₁ := by
    cases steps_of_step hdrop with
    | dropEntry => simp [Single]
  have hsingle : Single c s₂ :=
    exec_keeps (fun _ _ _ => single_step) (along_of_forall fun a ha _ => hmid a ha) hsingle hmidrun
  exact {
    single := single_step hsingle (by simp [TableAct.registers]) hretire
    marked := by
      cases steps_of_step hretire with
      | retire => simp [Marked]
    early := fun job hjob _ _ => hnumbered job hjob
    sent := ⟨[], (List.append_nil _).symm, nofun⟩ }

/-- After `unregister` returned, the frames that begin send nothing for the channel, and the first
of them takes the entry away for good. -/
theorem retired_silent {pre mid post : List (TableAct τ)} {t : τ} {c : Nat} {s₁ s : PumpTable τ}
    (hreturned : exec step new (pre ++ .dropEntry t c :: (mid ++ [.retire t c])) = some s₁)
    (hafter : exec step s₁ post = some s) (hmid : ∀ a ∈ mid, ¬ a.registers c)
    (hpost : ∀ a ∈ post, ¬ a.registers c) :
    (∃ later, s.sent = s₁.sent ++ later ∧ ∀ m ∈ later, m.channel = c → m.frame < s₁.frames) ∧
      ∀ screen client, .take c screen client ∈ post → s.channels c = none := by
  have hsilenced := silenced_unregister hmid hreturned
  refine ⟨(silenced_exec hsilenced hpost hafter).sent, fun screen client htake => ?_⟩
  obtain ⟨u, v, rfl⟩ := List.append_of_mem htake
  obtain ⟨s₂, hu, hv⟩ := exec_append.mp hafter
  obtain ⟨s₃, hstep, hv⟩ := exec_cons.mp hv
  have hmarked := (silenced_exec hsilenced (fun a ha => hpost a (List.mem_append_left _ ha)) hu).marked
  exact (gone_exec (gone_take hmarked hstep)
    (fun a ha => hpost a (List.mem_append_right _ (List.mem_cons_of_mem _ ha))) hv).1

def shot (rows : List String) : Screen String := ⟨rows, false, 0⟩

def offline : Client := fun _ _ => none

/-- The pump puts the entry back after `unregister` returned, and handles one more frame. -/
def lateFrames : List (TableAct Nat) := [.putBack, .take 7 (shot ["a"]) offline, .look]

/-- The step registers its channel, and unregisters it while the first frame is handled. -/
def retireLate : List (TableAct Nat) :=
  [.clearRetired 0 7 "m", .insert 0 7, .take 7 (shot ["m"]) offline, .look, .forward] ++
    .dropEntry 0 7 :: ([.consume] ++ [.retire 0 7])

theorem retired_silent_late : ∃ s₁ s : PumpTable Nat,
    exec step new retireLate = some s₁ ∧ exec step s₁ lateFrames = some s ∧
    (∃ later, s.sent = s₁.sent ++ later ∧ ∀ m ∈ later, m.channel = 7 → m.frame < s₁.frames) ∧
      ∀ screen client, .take 7 screen client ∈ lateFrames → s.channels 7 = none := by
  have hruns : ∃ s₁ s : PumpTable Nat, exec step new retireLate = some s₁ ∧
      exec step s₁ lateFrames = some s := ⟨_, _, rfl, rfl⟩
  obtain ⟨s₁, s, hreturned, hafter⟩ := hruns
  rw [retireLate] at hreturned
  exact ⟨s₁, s, hreturned, hafter, retired_silent hreturned hafter (by simp [TableAct.registers])
    (by simp [lateFrames, TableAct.registers])⟩

end PumpTable

end Shellflow
