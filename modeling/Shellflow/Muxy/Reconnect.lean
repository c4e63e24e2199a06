import Shellflow.Muxy.Pump
import Shellflow.Muxy.Session

/-! A step across a reconnect: the rows of both connections as the caller is shown them. The new
registration knows nothing of the marker, so all depends on whether it is still on the screen. -/
namespace Shellflow
open Slice LineAssembler

/-- Every frame before the drop may be read. -/
def FramesExact (h m : Nat) (asm : LineAssembler String) : List (List String) → Prop
  | [] => True
  | rows :: rest =>
    FrameExact h m asm rows ∧ FramesExact h m (asm.feed (frame h rows).1 (frame h rows).2).1 rest

/-- After the rows that left the screen of `s`, nothing more was printed behind the marker. -/
def NothingLeft (h m : Nat) (s last : List String) : Prop :=
  scrolled h last ≤ max (m + 1) (scrolled h s) ∧
    tailOf (last.drop (max (m + 1) (scrolled h last))) = []

instance (h m : Nat) (s last : List String) : Decidable (NothingLeft h m s last) :=
  inferInstanceAs (Decidable (_ ∧ _))

/-- The new connection never shows the marker: it left the screen before the first frame. -/
def MarkerGone (h m : Nat) : List (List String) → Prop
  | [] => True
  | rows :: _ => m < scrolled h rows

/-- The frames of the new connection: the marker is still on the first screen (or to come) and the
frames may be read, or there is nothing left to deliver. -/
def ResumeExact (h m : Nat) (marker : String) (before : List (List String)) :
    List (List String) → Prop
  | [] => NothingLeft h m (before.getLastD []) (before.getLastD [])
  | rows :: rest =>
    if scrolled h rows ≤ m then RunExact h m (waiting h marker rows) rows rest
    else NothingLeft h m (before.getLastD []) (rest.getLastD rows)

section Rows
variable {h m : Nat} {marker : String}

theorem emitted_streaming {s : List String} {rest : List (List String)}
    (hchain : (s :: rest).Pairwise (Evolves h))
    (hexact : FramesExact h m (streaming h marker s) rest) :
    (emitted h (streaming h marker s) rest).2 =
      slice (scrolled h s) (scrolled h (rest.getLastD s)) ((rest.getLastD s).map collapseCr) := by
  induction rest generalizing s with
  | nil => exact (slice_eq_nil _ (Nat.le_refl _)).symm
  | cons s' rest ih =>
    obtain ⟨hframe, hrest⟩ := hexact
    obtain ⟨hs, hchain'⟩ := List.pairwise_cons.mp hchain
    have hle := (hs s' List.mem_cons_self).scrolled_le
    have hlast := evolves_last hchain'
    rw [feed_streaming hframe] at hrest
    rw [emitted, feed_streaming hframe, List.getLastD_cons]
    simp only [ih hchain' hrest]
    rw [← slice_collapse_eq hlast (Nat.le_refl _), slice_append_slice _ hle hlast.scrolled_le]

theorem emitted_waiting {s : List String} {rest : List (List String)} (hne : marker ≠ "")
    (hchain : (s :: rest).Pairwise (Evolves h)) (hmark : ∀ t ∈ s :: rest, Marked h m marker t)
    (hgone : scrolled h s ≤ m) (hexact : FramesExact h m (waiting h marker s) rest) :
    (emitted h (waiting h marker s) rest).2 =
      slice (m + 1) (scrolled h (rest.getLastD s)) ((rest.getLastD s).map collapseCr) := by
  induction rest generalizing s with
  | nil => exact (slice_eq_nil _ (hgone.trans (Nat.le_succ m))).symm
  | cons s' rest ih =>
    obtain ⟨hframe, hrest⟩ := hexact
    have hchain' := (List.pairwise_cons.mp hchain).2
    have hmark' : ∀ t ∈ s' :: rest, Marked h m marker t := fun t ht =>
      hmark t (List.mem_cons_of_mem s ht)
    rw [emitted, List.getLastD_cons]
    rcases feed_waiting hne (hmark s List.mem_cons_self) (hmark' s' List.mem_cons_self) hframe
      with ⟨hfed, hm⟩ | ⟨hfed, hgone'⟩ | ⟨i, hi, hlt, hfed⟩
    · have hlast := evolves_last hchain'
      rw [hfed] at hrest ⊢
      simp only [emitted_streaming hchain' hrest]
      rw [← slice_collapse_eq hlast (Nat.le_refl _), slice_append_slice _ hm hlast.scrolled_le]
    · rw [hfed] at hrest ⊢
      exact ih hchain' hmark' hgone' hrest
    · rw [hfed] at hrest ⊢
      cases rest with
      | nil => exact (slice_eq_nil _ (show scrolled h s' ≤ m + 1 by omega)).symm
      | cons s'' rest =>
        -- the cut baseline is shorter than the screen
        have hlen : ((screenRows "" h s').drop (i + 1)).length = h := hrest.1.1
        rw [List.length_drop, length_screenRows] at hlen
        omega

/-- What the first connection delivers: the rows after the marker that left the screen. -/
theorem emitted_new {shots : List (List String)} (hne : marker ≠ "")
    (hchain : shots.Pairwise (Evolves h)) (hmark : ∀ s ∈ shots, Marked h m marker s)
    (hexact : FramesExact h m (LineAssembler.new marker) shots) :
    (emitted h (LineAssembler.new marker) shots).2 =
      slice (m + 1) (scrolled h (shots.getLastD [])) ((shots.getLastD []).map collapseCr) := by
  cases shots with
  | nil => exact (slice_eq_nil _ (by simp [scrolled])).symm
  | cons s rest =>
    obtain ⟨hgone, hrest⟩ := hexact
    rw [feed_new] at hrest
    rw [emitted, feed_new, List.getLastD_cons]
    exact emitted_waiting hne hchain hmark hgone hrest

/-- The marker left the screen before the new connection showed its first frame: no row comes out
any more, whatever follows. -/
theorem feed_lost {s s' : List String} (hne : marker ≠ "") (hmark : Marked h m marker s)
    (hmark' : Marked h m marker s') (hlost : m < scrolled h s)
    (hle : scrolled h s ≤ scrolled h s') :
    (waiting h marker s).feed (frame h s').1 (frame h s').2 = (waiting h marker s', []) := by
  have hlines : ((waiting h marker s).departed (frame h s').1).findIdx?
      (waiting h marker s).hasMarker = none := by
    refine Option.eq_none_iff_forall_ne_some.mpr fun i hfind => ?_
    obtain ⟨row, hrow, hcontains⟩ := findIdx?_map_collapse hfind
    rw [List.getElem?_take] at hrow
    split at hrow
    · have hindex := (index_of_screen hmark hne hrow hcontains).1
      omega
    · cases hrow
  have hscreen : (frame h s').1.rows.findIdx? (waiting h marker s).hasMarker = none := by
    refine Option.eq_none_iff_forall_ne_some.mpr fun i hfind => ?_
    obtain ⟨hi, hfound, -⟩ := List.findIdx?_eq_some_iff_getElem.mp hfind
    have hindex := (index_of_screen hmark' hne (List.getElem?_eq_getElem hi) hfound).1
    omega
  have hgap : (waiting h marker s').feedGap (gapOf (frame h s').1 (frame h s').2
      ((waiting h marker s).missingFrom (frame h s').1)) = (waiting h marker s', []) := by
    refine feedGap_none rfl (List.findIdx?_eq_none_iff.mpr fun row hrow => ?_)
    have hmissing : (waiting h marker s).missingFrom (frame h s').1 =
        (scrolled h s' - scrolled h s) - (waiting h marker s).shiftTo (frame h s').1.rows := rfl
    rw [gapOf_frame] at hrow
    obtain ⟨i, hi, -, hget⟩ := mem_slice.mp hrow
    refine eq_false_of_ne_true fun hcontains => ?_
    have hindex := hmark'.only i row hget hcontains
    omega
  have hscroll : (waiting h marker s).push (frame h s').1 =
      (waiting h marker s).pushScroll (frame h s').1 := push_scroll rfl rfl
  have hadvance : (waiting h marker s).advance (frame h s').1 = waiting h marker s' := rfl
  rw [feed_eq (hscroll.trans (pushScroll_unseen rfl hlines hscreen)), hadvance]
  simp only [hgap, List.nil_append]

theorem run_lost {s : List String} {rest : List (List String)} (hne : marker ≠ "")
    (hchain : (s :: rest).Pairwise (Evolves h)) (hmark : ∀ t ∈ s :: rest, Marked h m marker t)
    (hlost : m < scrolled h s) : (waiting h marker s).run (rest.map (frame h)) = [] := by
  induction rest generalizing s with
  | nil =>
    refine finish_none rfl (Option.eq_none_iff_forall_ne_some.mpr fun i hfind => ?_)
    obtain ⟨row, hrow, hcontains⟩ := findIdx?_map_collapse hfind
    have hindex := (index_of_screen (hmark s List.mem_cons_self) hne hrow hcontains).1
    omega
  | cons s' rest ih =>
    obtain ⟨hs, hchain'⟩ := List.pairwise_cons.mp hchain
    have hmark' : ∀ t ∈ s' :: rest, Marked h m marker t := fun t ht =>
      hmark t (List.mem_cons_of_mem s ht)
    have hle := (hs s' List.mem_cons_self).scrolled_le
    have hfed := feed_lost hne (hmark s List.mem_cons_self) (hmark' s' List.mem_cons_self) hlost hle
    rw [List.map_cons, run, hfed, ih hchain' hmark' (lt_of_lt_of_le hlost hle)]
    rfl

/-- The rows that left the screen of `s` are all there is exactly when nothing was left. -/
theorem nothingLeft_iff {s last : List String} (hlast : Evolves h s last) :
    slice (m + 1) (scrolled h s) (s.map collapseCr) = afterMarker h m last ↔
      NothingLeft h m s last := by
  have hle := hlast.scrolled_le
  have hrows : scrolled h last ≤ last.length := Nat.sub_le _ _
  rw [← slice_collapse_eq hlast (Nat.le_refl _), afterMarker, NothingLeft]
  constructor
  · intro heq
    have hlen := congrArg List.length heq
    rw [List.length_append, length_slice, length_slice, List.length_map] at hlen
    have htail : (tailOf (last.drop (max (m + 1) (scrolled h last)))).length = 0 := by omega
    exact ⟨by omega, List.length_eq_zero_iff.mp htail⟩
  · intro hnothing
    obtain ⟨hscrolled, htail⟩ := hnothing
    rw [htail, List.append_nil]
    by_cases hm : m + 1 ≤ scrolled h s
    · rw [Nat.max_eq_right hm] at hscrolled
      rw [Nat.le_antisymm hle hscrolled]
    · rw [slice_eq_nil _ (by omega), slice_eq_nil _ (by omega)]

theorem evolves_getLastD {before : List (List String)} {s : List String}
    (hall : ∀ t ∈ before, Evolves h t s) : Evolves h (before.getLastD []) s := by
  rcases List.mem_cons.mp (List.getLastD_mem_cons (l := before) (a := [])) with hnil | hmem
  · rw [hnil]
    exact evolves_append h [] s
  · exact hall _ hmem

theorem getLastD_append_cons (before after : List (List String)) (s : List String) :
    (before ++ s :: after).getLastD [] = after.getLastD s := by
  rw [List.getLastD_eq_getLast?, List.getLastD_eq_getLast?, List.getLast?_append,
    List.getLast?_cons]
  rfl

/-- Across the drop, with the marker still on the screen of the new connection. -/
theorem emitted_append_run_visible {before rest : List (List String)} {s : List String}
    (hne : marker ≠ "") (hchain : (before ++ s :: rest).Pairwise (Evolves h))
    (hmark : ∀ t ∈ before ++ s :: rest, Marked h m marker t)
    (hbefore : FramesExact h m (LineAssembler.new marker) before) (hgone : scrolled h s ≤ m)
    (hafter : RunExact h m (waiting h marker s) s rest) :
    (emitted h (LineAssembler.new marker) before).2 ++
        (LineAssembler.new marker : LineAssembler String).run ((s :: rest).map (frame h)) =
      afterMarker h m (rest.getLastD s) := by
  obtain ⟨hchain₁, hchain₂, hcross⟩ := List.pairwise_append.mp hchain
  have hresumed := evolves_getLastD fun t ht => hcross t ht s List.mem_cons_self
  have hle := hresumed.scrolled_le
  rw [emitted_new hne hchain₁ (fun t ht => hmark t (List.mem_append_left _ ht)) hbefore,
    List.map_cons, run, feed_new, slice_eq_nil _ (by omega)]
  exact run_waiting hne hchain₂ (fun t ht => hmark t (List.mem_append_right before ht)) hafter

/-- Across the drop, with the marker out of sight: only what came out before counts. -/
theorem emitted_append_run_gone {before after : List (List String)} (hne : marker ≠ "")
    (hchain : (before ++ after).Pairwise (Evolves h))
    (hmark : ∀ t ∈ before ++ after, Marked h m marker t)
    (hbefore : FramesExact h m (LineAssembler.new marker) before) (hgone : MarkerGone h m after) :
    (emitted h (LineAssembler.new marker) before).2 ++
        (LineAssembler.new marker : LineAssembler String).run (after.map (frame h)) =
          afterMarker h m ((before ++ after).getLastD []) ↔
      NothingLeft h m (before.getLastD []) ((before ++ after).getLastD []) := by
  obtain ⟨hchain₁, hchain₂, hcross⟩ := List.pairwise_append.mp hchain
  rw [emitted_new hne hchain₁ (fun t ht => hmark t (List.mem_append_left _ ht)) hbefore]
  cases after with
  | nil =>
    rw [List.append_nil]
    exact Iff.trans (Eq.congr_left (List.append_nil _)) (nothingLeft_iff Relation.ReflTransGen.refl)
  | cons s rest =>
    have hresumed := evolves_getLastD fun t ht => hcross t ht s List.mem_cons_self
    have hrun := run_lost hne hchain₂ (fun t ht => hmark t (List.mem_append_right before ht)) hgone
    rw [getLastD_append_cons, List.map_cons, run, feed_new, List.nil_append, hrun, List.append_nil]
    exact nothingLeft_iff (hresumed.trans (evolves_last hchain₂))

/-- The rows of both connections together are the rows after the marker. -/
theorem emitted_append_run {before after : List (List String)} (hne : marker ≠ "")
    (hchain : (before ++ after).Pairwise (Evolves h))
    (hmark : ∀ t ∈ before ++ after, Marked h m marker t)
    (hbefore : FramesExact h m (LineAssembler.new marker) before)
    (hafter : ResumeExact h m marker before after) :
    (emitted h (LineAssembler.new marker) before).2 ++
        (LineAssembler.new marker : LineAssembler String).run (after.map (frame h)) =
      afterMarker h m ((before ++ after).getLastD []) := by
  cases after with
  | nil =>
    rw [ResumeExact] at hafter
    refine (emitted_append_run_gone hne hchain hmark hbefore trivial).mpr ?_
    rwa [List.append_nil]
  | cons s rest =>
    rw [ResumeExact] at hafter
    by_cases hgone : scrolled h s ≤ m
    · rw [if_pos hgone] at hafter
      rw [getLastD_append_cons]
      exact emitted_append_run_visible hne hchain hmark hbefore hgone hafter
    · rw [if_neg hgone] at hafter
      refine (emitted_append_run_gone hne hchain hmark hbefore (Nat.lt_of_not_le hgone)).mpr ?_
      rwa [getLastD_append_cons]

end Rows

section Caller
variable (peer : Peer) (params : StepParams) {r : SessionRun} {session channel : Nat}
  {state : LoopState}

/-- The messages of one connection, as the loop takes them from the queue one by one. -/
def received (reconnection : Reconnection) (msgs : List (PumpMsg String)) : List Moment :=
  msgs.map fun msg => .recv msg [] reconnection

/-- A step whose connection drops once: the frames of the first connection, the drop and the
reconnect, the frames of the second one, and the end of the session. -/
def reconnectMoments (h : Nat) (marker : String) (channel' : Nat) (reason : ExitReason)
    (before after : List Shot) : List Moment :=
  let reconnection := .connected (.ok channel')
  let first := handleFrames (ChannelState.register marker) (before.map (shotFrame h))
  let second := handleFrames (ChannelState.register marker) (after.map (shotFrame h))
  received reconnection first.2 ++ .drop :: .recv .disconnected [] reconnection ::
    received reconnection (second.2 ++ notifyEnded second.1 reason)

theorem lines_conclude {result : StepEnd} : (conclude params session r result).lines = r.lines := by
  rw [conclude]
  by_cases hstill : result.stillRunning = true
  · simp [hstill]
  · by_cases hsecrets : params.hasSecrets = true
    · simp [hstill, cleanup, hsecrets, SessionRun.request, SessionRun.record]
    · simp [hstill, cleanup, hsecrets, SessionRun.request, SessionRun.record]

theorem stepTurn_recv {msg : PumpMsg String} {queued : List (PumpMsg String)}
    {reconnection : Reconnection} (hphase : r.phase = .streaming session channel state) :
    stepTurn peer params r (.recv msg queued reconnection) =
      handleMsg peer params r session channel state msg queued reconnection := by
  have hmoment : Moment.recv msg queued reconnection ≠ .drop := nofun
  rw [stepTurn_of_ne_drop hmoment, hphase]
  rfl

theorem foldl_received (reconnection : Reconnection) {msgs : List (PumpMsg String)}
    (hphase : r.phase = .streaming session channel state) (honly : OnlyLines msgs) :
    (received reconnection msgs).foldl (stepTurn peer params) r = r.shown (sentRows msgs) := by
  induction msgs generalizing r with
  | nil => simp [received, sentRows, SessionRun.shown]
  | cons msg rest ih =>
    obtain ⟨lines, rfl⟩ := honly msg List.mem_cons_self
    have hturn : stepTurn peer params r (.recv (.lines lines) [] reconnection) = r.shown lines :=
      stepTurn_recv peer params hphase
    have hrest := ih (r := r.shown lines) hphase fun msg hmsg =>
      honly msg (List.mem_cons_of_mem _ hmsg)
    rw [received, List.map_cons, List.foldl_cons, hturn]
    refine hrest.trans ?_
    simp [SessionRun.shown, sentRows]

/-- The drop and the reconnect show nothing and leave the loop running. -/
theorem foldl_reconnect (channel' : Nat) (hphase : r.phase = .streaming session channel state)
    (hspare : state.reconnected = false) :
    let resumed := [.drop, .recv .disconnected [] (.connected (.ok channel'))].foldl
      (stepTurn peer params) r
    resumed.phase = .streaming session channel { state with reconnected := true } ∧
      resumed.lines = r.lines := by
  have hdrop : stepTurn peer params r .drop = { r with link := { r.link with up := false } } := rfl
  have hspare' : ¬state.reconnected = true := Bool.eq_false_iff.mp hspare
  have hphase' : { r with link := { r.link with up := false } }.phase =
      .streaming session channel state := hphase
  rw [List.foldl_cons, hdrop, List.foldl_cons, List.foldl_nil, stepTurn_recv peer params hphase',
    handleMsg,
    if_neg hspare']
  exact ⟨rfl, rfl⟩

/-- The last rows and the end of the session. -/
theorem lines_ended {reason : ExitReason} (reconnection : Reconnection)
    (hphase : r.phase = .streaming session channel state) :
    (stepTurn peer params r (.recv (.ended reason) [] reconnection)).lines = r.lines := by
  rw [stepTurn_recv peer params hphase, handleMsg]
  exact (lines_conclude params).trans (List.append_nil _)

/-- All that one connection sends, up to the end of the session. -/
theorem lines_untilEnd (reason : ExitReason) {msgs : List (PumpMsg String)}
    (reconnection : Reconnection) (hphase : r.phase = .streaming session channel state)
    (honly : OnlyLines msgs) :
    ((received reconnection (msgs ++ [.ended reason])).foldl (stepTurn peer params) r).lines =
      r.lines ++ sentRows msgs := by
  have hlines := foldl_received peer params reconnection hphase honly
  rw [received, List.map_append, List.foldl_append]
  rw [received] at hlines
  rw [hlines]
  exact lines_ended peer params reconnection hphase

/-- The caller is shown what the assemblers of both connections emit. -/
theorem lines_reconnectMoments {h : Nat} {marker : String} {channel' : Nat} {reason : ExitReason}
    {before after : List Shot} (hphase : r.phase = .streaming session channel state)
    (hspare : state.reconnected = false)
    (hbefore : GapsRead h (LineAssembler.new marker) before)
    (hafter : GapsRead h (LineAssembler.new marker) after) :
    ((reconnectMoments h marker channel' reason before after).foldl
        (stepTurn peer params) r).lines =
      r.lines ++ ((emitted h (LineAssembler.new marker) (before.map Prod.fst)).2 ++
        (LineAssembler.new marker : LineAssembler String).run
          ((after.map Prod.fst).map (frame h))) := by
  obtain ⟨-, honly₁, hsent₁⟩ := handleFrames_read (.register marker) hbefore
  obtain ⟨hasm₂, honly₂, hsent₂⟩ := handleFrames_read (.register marker) hafter
  obtain ⟨hphase₂, hlines₂⟩ := foldl_reconnect peer params
    (r := r.shown (sentRows (handleFrames (.register marker) (before.map (shotFrame h))).2))
    channel' hphase hspare
  have htail := lines_untilEnd peer params reason
    (.connected (.ok channel')) hphase₂ (honly₂.append (onlyLines_forwardLines
      (handleFrames (.register marker) (after.map (shotFrame h))).1.asm.finish.2))
  rw [reconnectMoments, List.foldl_append, foldl_received peer params _ hphase honly₁]
  rw [List.append_assoc] at htail
  refine htail.trans ?_
  rw [hlines₂, sentRows_append, sentRows_forwardLines, hasm₂, hsent₂, run_eq_emitted,
    SessionRun.shown, hsent₁, List.append_assoc]
  rfl

end Caller

/-- Across one reconnect the caller is shown every row after the marker exactly once, in order,
when the frames of both connections may be read; and once the marker has left the screen that the
new connection starts from, only when nothing was left to deliver. -/
theorem Muxy.reconnect_exactlyOnce (peer : Peer) (params : StepParams) (r : SessionRun)
    (session channel channel' : Nat) (state : LoopState) (reason : ExitReason) (h m : Nat)
    (before after : List Shot) (hphase : r.phase = .streaming session channel state)
    (hspare : state.reconnected = false)
    (hchain : (before.map Prod.fst ++ after.map Prod.fst).Pairwise (Evolves h))
    (hmark : ∀ s ∈ before.map Prod.fst ++ after.map Prod.fst,
      Marked h m (beginMarker params.runId params.stepId) s)
    (hbefore : FramesExact h m (LineAssembler.new (beginMarker params.runId params.stepId))
      (before.map Prod.fst))
    (hread : GapsRead h (LineAssembler.new (beginMarker params.runId params.stepId)) before)
    (hread' : GapsRead h (LineAssembler.new (beginMarker params.runId params.stepId)) after) :
    let shown := ((reconnectMoments h (beginMarker params.runId params.stepId) channel' reason
      before after).foldl (stepTurn peer params) r).lines
    let last := (before.map Prod.fst ++ after.map Prod.fst).getLastD []
    (ResumeExact h m (beginMarker params.runId params.stepId) (before.map Prod.fst)
        (after.map Prod.fst) → shown = r.lines ++ afterMarker h m last) ∧
      (MarkerGone h m (after.map Prod.fst) → (shown = r.lines ++ afterMarker h m last ↔
        NothingLeft h m ((before.map Prod.fst).getLastD []) last)) := by
  intro shown last
  have hne := beginMarker_ne_empty params.runId params.stepId
  have hshown : shown = _ := lines_reconnectMoments peer params hphase hspare hread hread'
  rw [hshown, List.append_right_inj]
  exact ⟨emitted_append_run hne hchain hmark hbefore,
    emitted_append_run_gone hne hchain hmark hbefore⟩

section Drop

def sleepyStep : StepParams :=
  ⟨"r", "s", "seq 4", none, false, [], false, false, 0, 0, none, false⟩

def attachedRun : SessionRun := ⟨⟨0, true⟩, some 7, .streaming 7 3 ⟨false, false⟩, [], []⟩

/-- The rows printed so far; no frame misses any, so the history is never asked for. -/
def shotAt (n : Nat) : Shot := (scrolledMarker.rows.take n, fun _ _ => none)

/-- The marker is still on the first screen of the new connection. -/
theorem Muxy.reconnect_exactlyOnce_visible :
    ((reconnectMoments 2 (beginMarker "r" "s") 4 (.exited 0) [shotAt 2]
        [shotAt 2, shotAt 4, shotAt 5]).foldl
      (stepTurn ⟨"api", "/root", true⟩ sleepyStep) attachedRun).lines =
      [] ++ afterMarker 2 1 (scrolledMarker.rows.take 5) := by
  have hmarker : scrolledMarker.marker = beginMarker "r" "s" := by decide +kernel
  have hchain : ([2, 2, 4, 5].map fun n => scrolledMarker.rows.take n).Pairwise (Evolves 2) :=
    List.pairwise_map.mpr (List.Pairwise.imp (S := fun n n' => Evolves 2 (scrolledMarker.rows.take n)
      (scrolledMarker.rows.take n')) (scrolledMarker.evolves_take 2)
      (by decide : [2, 2, 4, 5].Pairwise (· ≤ ·)))
  have hmark : ∀ s ∈ [2, 2, 4, 5].map fun n => scrolledMarker.rows.take n,
      Marked 2 1 (beginMarker "r" "s") s := by
    rw [← hmarker]
    exact List.forall_mem_map.mpr fun n _ => scrolledMarker.marked_take 2 n
  refine (Muxy.reconnect_exactlyOnce ⟨"api", "/root", true⟩ sleepyStep attachedRun 7 3 4
    ⟨false, false⟩ (.exited 0) 2 1 [shotAt 2] [shotAt 2, shotAt 4, shotAt 5] rfl rfl hchain hmark
    ?_ ?_ ?_).1 ?_
  · exact ⟨by decide +kernel, trivial⟩
  · exact ⟨by decide +kernel, trivial⟩
  · exact ⟨by decide +kernel, by decide +kernel, by decide +kernel, trivial⟩
  · exact ⟨by decide +kernel, by decide +kernel, Or.inl (by decide +kernel)⟩

/-- The first connection shows the marker and scrolls it off the screen; after the reconnect none
of the rows behind it comes out. -/
theorem Muxy.reconnect_drops_the_output :
    ((reconnectMoments 2 (beginMarker "r" "s") 4 (.exited 0) [shotAt 2, shotAt 4]
        [shotAt 4, shotAt 5]).foldl
      (stepTurn ⟨"api", "/root", true⟩ sleepyStep) attachedRun).lines = [] ∧
    afterMarker 2 1 (scrolledMarker.rows.take 5) = ["a", "b", "c"] := by
  decide +kernel

end Drop

end Shellflow
