import Shellflow.Muxy.ExactlyOnce
import Shellflow.Muxy.GapFill

/-! The pump of one connection: it turns the frames of a channel into messages for the step that
owns it. A registration starts with an assembler that has seen nothing. -/
namespace Shellflow
open LineAssembler

/-- How the server answers the history requests made while one frame is handled. -/
abbrev Client := Nat → Nat → Option (HistoryPage String)

def ChannelState.register (marker : String) : ChannelState String := ⟨LineAssembler.new marker, false⟩

def handleFrame (state : ChannelState String) (screen : Screen String) (client : Client) :
    ChannelState String × List (PumpMsg String) :=
  let (asm, push) := state.asm.push screen
  forwardPush client { state with asm := asm } push screen.historyTotal

def handleFrames (state : ChannelState String) :
    List (Screen String × Client) → ChannelState String × List (PumpMsg String)
  | [] => (state, [])
  | (screen, client) :: rest =>
    let (state', sent) := handleFrame state screen client
    let (state'', sent') := handleFrames state' rest
    (state'', sent ++ sent')

def notifyEnded (state : ChannelState String) (reason : ExitReason) : List (PumpMsg String) :=
  forwardLines state.asm.finish.2 ++ [.ended reason]

/-- A row of the terminal, and what the server answers while its frame is handled. -/
abbrev Shot := List String × Client

def shotFrame (h : Nat) (shot : Shot) : Screen String × Client := ((frame h shot.1).1, shot.2)

/-- What the frames make the assembler emit, without the end of the session. -/
def emitted (h : Nat) (asm : LineAssembler String) :
    List (List String) → LineAssembler String × List String
  | [] => (asm, [])
  | rows :: rest =>
    let (asm', lines) := asm.feed (frame h rows).1 (frame h rows).2
    let (asm'', lines') := emitted h asm' rest
    (asm'', lines ++ lines')

/-- The gap of every frame comes back in full. -/
def GapsRead (h : Nat) (asm : LineAssembler String) : List Shot → Prop
  | [] => True
  | (rows, client) :: rest =>
    let missing := (asm.push (frame h rows).1).2.missing
    gapRows client missing (scrolled h rows) = gapOf (frame h rows).1 (frame h rows).2 missing ∧
      GapsRead h (asm.feed (frame h rows).1 (frame h rows).2).1 rest

/-- Only rows were sent. -/
def OnlyLines (msgs : List (PumpMsg String)) : Prop := ∀ msg ∈ msgs, ∃ lines, msg = .lines lines

theorem OnlyLines.append {msgs msgs' : List (PumpMsg String)} (h : OnlyLines msgs)
    (h' : OnlyLines msgs') : OnlyLines (msgs ++ msgs') :=
  fun msg hmsg => (List.mem_append.mp hmsg).elim (h msg) (h' msg)

theorem onlyLines_forwardLines (lines : List String) : OnlyLines (forwardLines lines) := by
  intro msg hmsg
  obtain ⟨chunk, -, rfl⟩ := List.mem_map.mp hmsg
  exact ⟨chunk, rfl⟩

theorem push_tuiRedraw (asm : LineAssembler String) {screen : Screen String}
    (hreset : screen.reset = false) : (asm.push screen).2.tuiRedraw = false := by
  cases hinit : asm.initialized with
  | false => rw [push_first hinit]; rfl
  | true =>
    rw [push_scroll hinit hreset, pushScroll]
    simp only []
    split
    · rfl
    · split
      · rfl
      · split
        · rfl
        · rfl

theorem run_eq_emitted {h : Nat} {asm : LineAssembler String} (shots : List (List String)) :
    asm.run (shots.map (frame h)) = (emitted h asm shots).2 ++ (emitted h asm shots).1.finish.2 := by
  induction shots generalizing asm with
  | nil => rfl
  | cons rows rest ih =>
    rw [List.map_cons, run, ih, emitted, List.append_assoc]

theorem length_gapOf_frame {h missing : Nat} {rows : List String} (hle : missing ≤ scrolled h rows) :
    (gapOf (frame h rows).1 (frame h rows).2 missing).length = missing := by
  have hrows : scrolled h rows ≤ rows.length := Nat.sub_le _ _
  rw [gapOf_frame, Slice.length_slice]
  omega

/-- One frame whose gap comes back in full: the pump sends what the assembler is fed. -/
theorem handleFrame_read {h : Nat} {state : ChannelState String} {rows : List String}
    {client : Client}
    (hread : gapRows client (state.asm.push (frame h rows).1).2.missing (scrolled h rows) =
      gapOf (frame h rows).1 (frame h rows).2 (state.asm.push (frame h rows).1).2.missing) :
    let handled := handleFrame state (frame h rows).1 client
    let fed := state.asm.feed (frame h rows).1 (frame h rows).2
    handled.1 = ⟨fed.1, state.budgetWarned⟩ ∧ OnlyLines handled.2 ∧ sentRows handled.2 = fed.2 := by
  have hredraw : (state.asm.push (frame h rows).1).2.tuiRedraw = false :=
    push_tuiRedraw state.asm rfl
  have hle := state.asm.push_missing_le (frame h rows).1
  rw [handleFrame, feed]
  cases hpush : state.asm.push (frame h rows).1 with
  | mk asm push =>
    rw [hpush] at hread hredraw hle
    have hscrolls : ¬push.tuiRedraw = true := Bool.eq_false_iff.mp hredraw
    simp only [forwardPush, if_neg hscrolls]
    by_cases hmissing : push.missing = 0
    · simp only [if_pos hmissing]
      exact ⟨trivial, onlyLines_forwardLines _, sentRows_forwardLines _⟩
    · have hshort : ¬(gapRows client push.missing (scrolled h rows)).length < push.missing := by
        rw [hread, length_gapOf_frame hle]
        exact Nat.lt_irrefl _
      have htotal : (frame h rows).1.historyTotal = scrolled h rows := rfl
      simp only [if_neg hmissing, htotal, hshort, false_and, if_false]
      rw [hread]
      refine ⟨rfl, (onlyLines_forwardLines _).append (onlyLines_forwardLines _), ?_⟩
      rw [sentRows_append, sentRows_forwardLines, sentRows_forwardLines]
      rfl

/-- All the frames of one connection. -/
theorem handleFrames_read {h : Nat} (state : ChannelState String) {shots : List Shot}
    (hread : GapsRead h state.asm shots) :
    let handled := handleFrames state (shots.map (shotFrame h))
    handled.1.asm = (emitted h state.asm (shots.map Prod.fst)).1 ∧ OnlyLines handled.2 ∧
      sentRows handled.2 = (emitted h state.asm (shots.map Prod.fst)).2 := by
  induction shots generalizing state with
  | nil => exact ⟨rfl, fun msg hmsg => absurd hmsg List.not_mem_nil, rfl⟩
  | cons shot rest ih =>
    obtain ⟨rows, client⟩ := shot
    obtain ⟨hgap, hrest⟩ := hread
    obtain ⟨hstate, honly, hsent⟩ := handleFrame_read hgap
    have hasm : (handleFrame state (frame h rows).1 client).1.asm =
        (state.asm.feed (frame h rows).1 (frame h rows).2).1 := by
      rw [hstate]
    rw [← hasm] at hrest
    obtain ⟨hstate', honly', hsent'⟩ := ih _ hrest
    simp only [List.map_cons, handleFrames, shotFrame, emitted, sentRows_append]
    rw [← hasm, ← hsent]
    exact ⟨hstate', honly.append honly', congrArg _ hsent'⟩

end Shellflow
