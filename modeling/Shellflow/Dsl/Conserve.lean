import Shellflow.Dsl.Effects

/-! The scanner keeps the script: what the blocks of the plan hold is what the script holds
between its directives, in order and in the right place. -/
namespace Shellflow
open Fallible State

/-- A line of the script as the scanner reads it. -/
inductive ScriptLine
  | text (raw : List Char)
  | directive (keyword payload : String) (line : Nat)

/-- The lines of a script; the body of a here-document is text, whatever it looks like. -/
def readLines : HeredocTracker → List (List Char × Nat) → List ScriptLine
  | _, [] => []
  | heredocs, (raw, n) :: rest =>
    let body := heredocs.consumeBody (stripCr raw)
    if body.2 then .text raw :: readLines body.1 rest
    else
      match directive (stripCr raw) with
      | some (keyword, payload) => .directive keyword payload n :: readLines heredocs rest
      | none => .text raw :: readLines (heredocs.openIn (stripCr raw) n) rest

def scriptLines (input : String) : List ScriptLine := readLines ⟨[]⟩ (numberedLines input)

def ScriptLine.text? : ScriptLine → Option (List Char)
  | .text raw => some raw
  | .directive _ _ _ => none

/-- The lines that are no directives. -/
def textLines (input : String) : List (List Char) := (scriptLines input).filterMap ScriptLine.text?

/-- Lines that run together; no target means the local machine. -/
structure Segment where
  target : Option Target
  lines : List (List Char)

/-- The target after a directive: `@local` and `@copy` return to the local machine. -/
def targetAfter (target : Option Target) (keyword payload : String) (line : Nat) :
    Option Target :=
  if keyword = "local" ∨ keyword = "copy" then none
  else if keyword = "remote" then some (.mkAt (targetText payload) line)
  else target

/-- Every directive but `@export` ends the segment in front of it. -/
def segmentsFrom (target : Option Target) (lines : List (List Char)) :
    List ScriptLine → List Segment
  | [] => [⟨target, lines⟩]
  | .text raw :: rest => segmentsFrom target (lines ++ [raw]) rest
  | .directive keyword payload n :: rest =>
    if keyword = "export" then segmentsFrom target lines rest
    else ⟨target, lines⟩ :: segmentsFrom (targetAfter target keyword payload n) [] rest

def segments (input : String) : List Segment := segmentsFrom none [] (scriptLines input)

namespace Segment

/-- Some line is neither blank nor a comment. -/
def isExecutable (s : Segment) : Bool :=
  s.lines.any fun raw =>
    let trimmed := Str.trimChars (stripCr raw)
    !trimmed.isEmpty && trimmed.head? != some '#'

/-- The lines, each without a carriage return at its end and with a newline. -/
def script (s : Segment) : List Char := s.lines.flatMap fun raw => stripCr raw ++ ['\n']

end Segment

/-- Where a block of the plan runs, and its script. -/
def Step.block? : Step → Option (Option Target × List Char)
  | .localBlock s => some (none, s.script.toList)
  | .remote s => some (some s.target, s.script.toList)
  | _ => none

def blocksOf (steps : List Step) : List (Option Target × List Char) := steps.filterMap Step.block?

/-- The segments of a script that become blocks. -/
def keptSegments (input : String) : List Segment := (segments input).filter Segment.isExecutable

section Segments

attribute [local simp] readLines segmentsFrom

theorem segmentsFrom_lines (target : Option Target) (lines : List (List Char))
    (script : List ScriptLine) :
    (segmentsFrom target lines script).flatMap Segment.lines =
      lines ++ script.filterMap ScriptLine.text? := by
  induction script generalizing target lines with
  | nil => simp [segmentsFrom]
  | cons l script ih =>
    cases l with
    | text raw =>
      have htext : (ScriptLine.text raw).text? = some raw := rfl
      rw [segmentsFrom, ih, List.filterMap_cons_some htext, List.append_assoc,
        List.singleton_append]
    | directive keyword payload n =>
      have hdir : (ScriptLine.directive keyword payload n).text? = none := rfl
      rw [List.filterMap_cons_none hdir]
      by_cases hexport : keyword = "export"
      · rw [segmentsFrom, if_pos hexport, ih]
      · rw [segmentsFrom, if_neg hexport, List.flatMap_cons, ih, List.nil_append]

/-- No line is lost between the segments. -/
theorem segments_lines (input : String) :
    (segments input).flatMap Segment.lines = textLines input := by
  rw [segments, segmentsFrom_lines, List.nil_append, textLines]

theorem intercalate_newline (lines : List (List Char)) (hne : lines ≠ []) :
    ['\n'].intercalate lines ++ ['\n'] = lines.flatMap fun line => line ++ ['\n'] := by
  induction lines with
  | nil => exact absurd rfl hne
  | cons line lines ih =>
    cases lines with
    | nil => simp
    | cons next lines =>
      have hrest := ih (List.cons_ne_nil next lines)
      rw [List.flatMap_cons, ← hrest, List.intercalate_cons_cons]
      simp

end Segments

/-- The block a segment becomes. -/
def Segment.block (s : Segment) : Option Target × List Char := (s.target, s.script)

/-- The blocks of the segments that have something to execute. -/
def keptBlocks (segs : List Segment) : List (Option Target × List Char) :=
  (segs.filter Segment.isExecutable).map Segment.block

theorem blocksOf_append (steps steps' : List Step) :
    blocksOf (steps ++ steps') = blocksOf steps ++ blocksOf steps' := List.filterMap_append

theorem blocksOf_of_not_isBlock {step : Step} (h : ¬ step.IsBlock) : blocksOf [step] = [] := by
  cases step with
  | localBlock s => exact absurd trivial h
  | remote s => exact absurd trivial h
  | _ => rfl

/-- Changing the last step for one that is the same block. -/
theorem blocksOf_replaceLast {steps : List Step} {old new : Step}
    (hlast : steps.getLast? = some old) (hblock : old.block? = new.block?) :
    blocksOf (steps.dropLast ++ [new]) = blocksOf steps := by
  have hsplit : steps = steps.dropLast ++ [old] := (List.dropLast_append_getLast? old hlast).symm
  have hone : blocksOf [new] = blocksOf [old] := by
    rw [blocksOf, blocksOf, List.filterMap_cons, List.filterMap_cons, hblock]
  rw [blocksOf_append, hone, ← blocksOf_append, ← hsplit]

namespace State

/-- Where the pending lines are to run. -/
def place (st : State) : Option Target :=
  match st.mode with
  | .localMode => none
  | .remoteMode => some (.mkAt st.target st.targetLine)

/-- The pending lines are these lines of the script. -/
def Holds (st : State) (lines : List (List Char)) : Prop := st.pending = lines.map stripCr

theorem hasExecutable_eq {st : State} {lines : List (List Char)} (h : st.Holds lines) :
    st.hasExecutable = (Segment.mk st.place lines).isExecutable := by
  rw [hasExecutable, h, List.any_map]
  rfl

theorem blockStep_block {st : State} {lines : List (List Char)} (h : st.Holds lines)
    (hne : lines ≠ []) :
    st.blockStep.block? = some (Segment.mk st.place lines).block := by
  have hscript : st.blockScript.toList = (Segment.mk st.place lines).script := by
    have hpending : st.pending ≠ [] := by
      rw [h]
      exact fun hnil => hne (List.map_eq_nil_iff.mp hnil)
    rw [blockScript, String.toList_ofList, intercalate_newline _ hpending, h, List.flatMap_map]
    rfl
  unfold blockStep
  cases hmode : st.mode with
  | localMode =>
    simp only [Step.block?, hscript, Segment.block, place, hmode]
  | remoteMode =>
    simp only [Step.block?, hscript, Segment.block, place, hmode]

theorem flush_pending (st : State) : st.flush.pending = [] := by
  unfold flush
  split <;> rfl

theorem flush_heredocs (st : State) : st.flush.heredocs = st.heredocs := by
  unfold flush
  split <;> rfl

theorem flush_place (st : State) : st.flush.place = st.place := by
  unfold flush
  split <;> rfl

/-- A flush turns the pending lines into a block when they have something to execute. -/
theorem blocksOf_flush {st : State} {lines : List (List Char)} (h : st.Holds lines) :
    blocksOf st.flush.plan.steps =
      blocksOf st.plan.steps ++ keptBlocks [⟨st.place, lines⟩] := by
  unfold flush
  by_cases hexec : st.hasExecutable = true
  · have hkept : (Segment.mk st.place lines).isExecutable = true := by
      rw [← hasExecutable_eq h, hexec]
    have hne : lines ≠ [] := by
      intro hnil
      rw [hnil] at hkept
      cases hkept
    rw [if_pos hexec]
    have hblock : blocksOf [st.blockStep] = [(Segment.mk st.place lines).block] := by
      rw [blocksOf, List.filterMap_cons_some (blockStep_block h hne), List.filterMap_nil]
    have hfilter : keptBlocks [⟨st.place, lines⟩] = [(Segment.mk st.place lines).block] := by
      rw [keptBlocks, List.filter_cons_of_pos hkept, List.filter_nil, List.map_singleton]
    rw [hfilter, ← hblock, ← blocksOf_append]
    rfl
  · have hkept : ¬ (Segment.mk st.place lines).isExecutable = true := by
      rwa [← hasExecutable_eq h]
    rw [if_neg hexec]
    have hfilter : keptBlocks [⟨st.place, lines⟩] = [] := by
      rw [keptBlocks, List.filter_cons_of_neg hkept, List.filter_nil, List.map_nil]
    rw [hfilter, List.append_nil]

/-- The two states differ neither in what is pending nor in the blocks of the plan. -/
structure SameBlocks (st st' : State) : Prop where
  pending : st'.pending = st.pending
  heredocs : st'.heredocs = st.heredocs
  blocks : blocksOf st'.plan.steps = blocksOf st.plan.steps

theorem assertMergeable_last {st : State} {target : String} {existing : AssertStep}
    (h : st.assertMergeable target = some existing) :
    st.plan.steps.getLast? = some (.assert existing) := by
  unfold assertMergeable at h
  split at h
  next hlast =>
    split at h
    · rw [hlast, Option.some.inj h]
    · cases h
  next => cases h

theorem copyMergeable_last {st : State} {c : CopyDirective} {existing : CopyStep}
    (h : st.copyMergeable c = some existing) :
    st.plan.steps.getLast? = some (.copy existing) := by
  unfold copyMergeable at h
  split at h
  next hlast =>
    split at h
    · rw [hlast, Option.some.inj h]
    · cases h
  next => cases h

theorem sameBlocks_emit (st : State) (target : String) {step : Step} (h : ¬ step.IsBlock) :
    SameBlocks st (st.emit target step) where
  pending := rfl
  heredocs := rfl
  blocks := by
    have hsteps : (st.emit target step).plan.steps = st.plan.steps ++ [step] := rfl
    rw [hsteps, blocksOf_append, blocksOf_of_not_isBlock h, List.append_nil]

theorem sameBlocks_pushAssertion (st : State) (target : String) (line : Nat)
    (check : Assertion) : SameBlocks st (st.pushAssertion target line check) := by
  unfold pushAssertion
  cases hmerge : st.assertMergeable target with
  | none => exact sameBlocks_emit st target not_false
  | some existing =>
    exact ⟨rfl, rfl, blocksOf_replaceLast (assertMergeable_last hmerge) rfl⟩

theorem sameBlocks_pushCopy (st : State) (c : CopyDirective) (line : Nat) :
    SameBlocks st (st.pushCopy c line) := by
  unfold pushCopy
  cases hmerge : st.copyMergeable c with
  | none => exact sameBlocks_emit st c.target not_false
  | some existing =>
    exact ⟨rfl, rfl, blocksOf_replaceLast (copyMergeable_last hmerge) rfl⟩

/-- No directive touches the blocks that are there or the lines that are pending. -/
theorem Effect.sameBlocks {st st' : State} {keyword payload : String} {line : Nat}
    (h : Effect st payload line keyword st') : SameBlocks st st' := by
  cases h with
  | server h => exact ⟨rfl, rfl, rfl⟩
  | group h => exact ⟨rfl, rfl, rfl⟩
  | declared h env secrets workdir => exact ⟨rfl, rfl, rfl⟩
  | option h timeout name guard => exact ⟨rfl, rfl, rfl⟩
  | enterLocal => exact ⟨rfl, rfl, rfl⟩
  | enterRemote h => exact ⟨rfl, rfl, rfl⟩
  | hostStep h target step hblock => exact sameBlocks_emit st target hblock
  | assertion h target check => exact sameBlocks_pushAssertion st target line check
  | copied c h =>
    have hcopy := sameBlocks_pushCopy st.localLines c line
    exact ⟨hcopy.pending, hcopy.heredocs, hcopy.blocks⟩
  | exportNext vars => exact ⟨rfl, rfl, rfl⟩
  | exportLast vars s h => exact ⟨rfl, rfl, blocksOf_replaceLast h rfl⟩

theorem place_of_pushAssertion (st : State) (target : String) (line : Nat) (check : Assertion) :
    (st.pushAssertion target line check).place = st.place := by
  unfold pushAssertion
  split <;> rfl

theorem place_of_pushCopy (st : State) (c : CopyDirective) (line : Nat) :
    (st.pushCopy c line).place = st.place := by
  unfold pushCopy
  split <;> rfl

theorem targetAfter_eq {target : Option Target} {keyword payload : String} {line : Nat}
    (h : keyword ∉ ["local", "copy", "remote"]) :
    targetAfter target keyword payload line = target := by
  simp only [List.mem_cons, List.not_mem_nil, or_false, not_or] at h
  rw [targetAfter, if_neg (not_or.mpr ⟨h.1, h.2.1⟩), if_neg h.2.2]

theorem requireTarget_ok {raw directive target : String} {line : Nat}
    (h : requireTarget raw directive line = .ok target) : target = targetText raw := by
  unfold requireTarget at h
  split at h
  · cases h
  · exact (Except.ok.inj h).symm

/-- A keyword of one list is none of a disjoint one. -/
theorem not_mem_of_all {keyword : String} {keywords others : List String}
    (h : keyword ∈ keywords) (hall : (keywords.all fun k => decide (k ∉ others)) = true) :
    keyword ∉ others := of_decide_eq_true (List.all_eq_true.mp hall keyword h)

/-- `@local`, `@remote` and `@copy` set where the next lines run, and nothing else does. -/
theorem Effect.place {st st' : State} {keyword payload : String} {line : Nat}
    (h : Effect st payload line keyword st') :
    st'.place = targetAfter st.place keyword payload line := by
  cases h with
  | server h => exact (targetAfter_eq (by decide)).symm
  | group h => exact (targetAfter_eq (by decide)).symm
  | declared h env secrets workdir =>
    exact (targetAfter_eq (not_mem_of_all h (by decide +kernel))).symm
  | option h timeout name guard =>
    exact (targetAfter_eq (not_mem_of_all h (by decide +kernel))).symm
  | enterLocal => rfl
  | enterRemote h =>
    rw [requireTarget_ok h]
    rfl
  | hostStep h target step hblock =>
    exact (targetAfter_eq (not_mem_of_all h (by decide +kernel))).symm
  | assertion h target check =>
    rw [place_of_pushAssertion]
    exact (targetAfter_eq (not_mem_of_all h (by decide +kernel))).symm
  | copied c h =>
    rw [place_of_pushCopy]
    rfl
  | exportNext vars => exact (targetAfter_eq (by decide)).symm
  | exportLast vars s h => exact (targetAfter_eq (by decide)).symm

/-- The blocks of the plan, then those of what is pending and of what is still to be read. -/
def allBlocks (st : State) (lines : List (List Char)) (rest : List (List Char × Nat)) :
    List (Option Target × List Char) :=
  blocksOf st.plan.steps ++ keptBlocks (segmentsFrom st.place lines (readLines st.heredocs rest))

theorem readLines_directive {heredocs : HeredocTracker} {raw : List Char} {n : Nat}
    {rest : List (List Char × Nat)} {keyword payload : String}
    (h : (heredocs.consumeBody (stripCr raw)).2 = false)
    (hdir : Shellflow.directive (stripCr raw) = some (keyword, payload)) :
    readLines heredocs ((raw, n) :: rest) =
      .directive keyword payload n :: readLines heredocs rest := by
  simp only [readLines, h, Bool.false_eq_true, if_false, hdir]

theorem keptBlocks_append (segs segs' : List Segment) :
    keptBlocks (segs ++ segs') = keptBlocks segs ++ keptBlocks segs' := by
  rw [keptBlocks, List.filter_append, List.map_append, keptBlocks, keptBlocks]

/-- A line moves from what is to be read to what is pending, and from there to the plan. -/
theorem allBlocks_scanLine {st st' : State} {lines : List (List Char)} {raw : List Char} {n : Nat}
    (hlines : st.Holds lines) (h : st.scanLine (raw, n) = .ok st') :
    ∃ lines', st'.Holds lines' ∧
      ∀ rest, st'.allBlocks lines' rest = st.allBlocks lines ((raw, n) :: rest) := by
  have hpush : st.pending ++ [stripCr raw] = (lines ++ [raw]).map stripCr := by
    rw [List.map_append, List.map_singleton, ← hlines]
  cases effect_scanLine h with
  | body hbody =>
    refine ⟨lines ++ [raw], hpush, fun rest => ?_⟩
    simp only [allBlocks, readLines, hbody, if_true, segmentsFrom]
    rfl
  | text hbody hdir =>
    refine ⟨lines ++ [raw], hpush, fun rest => ?_⟩
    simp only [allBlocks, readLines, hbody, Bool.false_eq_true, if_false, hdir, segmentsFrom]
    rfl
  | @directive keyword payload st' hbody hdir heffect =>
    have hsame := heffect.sameBlocks
    have hplace := heffect.place
    by_cases hexport : keyword = "export"
    · rw [beforeDirective, if_pos hexport] at hsame hplace
      have hkeep : targetAfter st.place keyword payload n = st.place :=
        targetAfter_eq (by rw [hexport]; decide)
      refine ⟨lines, hsame.pending.trans hlines, fun rest => ?_⟩
      rw [allBlocks, allBlocks, hsame.blocks, hsame.heredocs, hplace, hkeep,
        readLines_directive hbody hdir, segmentsFrom, if_pos hexport]
    · rw [beforeDirective, if_neg hexport] at hsame hplace
      refine ⟨[], hsame.pending.trans st.flush_pending, fun rest => ?_⟩
      rw [allBlocks, allBlocks, hsame.blocks, hsame.heredocs, hplace, flush_heredocs, flush_place,
        blocksOf_flush hlines, readLines_directive hbody hdir, segmentsFrom, if_neg hexport,
        List.append_assoc, ← keptBlocks_append, List.singleton_append]

/-- Reading the rest of the script adds the blocks of its segments. -/
theorem allBlocks_run {st st' : State} {lines : List (List Char)}
    {numbered : List (List Char × Nat)} (hlines : st.Holds lines)
    (h : numbered.foldlM scanLine st = .ok st') :
    ∃ lines', st'.Holds lines' ∧ st'.allBlocks lines' [] = st.allBlocks lines numbered := by
  induction numbered generalizing st lines with
  | nil =>
    cases h
    exact ⟨lines, hlines, rfl⟩
  | cons l numbered ih =>
    obtain ⟨mid, hmid, h⟩ := bind_eq_ok.mp h
    obtain ⟨lines₁, hlines₁, hstep⟩ := allBlocks_scanLine hlines hmid
    obtain ⟨lines₂, hlines₂, hrest⟩ := ih hlines₁ h
    exact ⟨lines₂, hlines₂, hrest.trans (hstep numbered)⟩

theorem finish_ok {st : State} {plan : ExecutionPlan} (h : st.finish = .ok plan) :
    plan = st.flush.plan := by
  unfold finish at h
  split at h
  · cases h
  · split at h
    · cases h
    · exact (Except.ok.inj h).symm

end State

theorem blocksOf_parse {input : String} {plan : ExecutionPlan}
    (h : parseScript input = .ok plan) :
    blocksOf plan.steps = (keptSegments input).map Segment.block := by
  obtain ⟨st, hrun, hfinish⟩ := bind_eq_ok.mp h
  have hnew : State.new.Holds [] := rfl
  obtain ⟨lines, hlines, hblocks⟩ := State.allBlocks_run hnew hrun
  have hlast : st.allBlocks lines [] = blocksOf plan.steps := by
    rw [State.finish_ok hfinish, State.blocksOf_flush hlines]
    rfl
  rw [← hlast, hblocks]
  rfl

/-- The blocks of the plan are the segments of the script that have something to execute, each
where the directives before it say, and the segments hold every line that is no directive. A
carriage return at the end of a line is dropped. -/
theorem parseScript_conserves (input : String) (plan : ExecutionPlan)
    (h : parseScript input = .ok plan) :
    blocksOf plan.steps = (keptSegments input).map (fun s => (s.target, s.script)) ∧
      (segments input).flatMap Segment.lines = textLines input :=
  ⟨blocksOf_parse h, segments_lines input⟩

/-- One line, for the local machine. -/
def helloScript : String := "echo hi\n"

theorem parseScript_conserves_hello : ∃ plan, parseScript helloScript = .ok plan ∧
    blocksOf plan.steps = (keptSegments helloScript).map (fun s => (s.target, s.script)) ∧
      (segments helloScript).flatMap Segment.lines = textLines helloScript := by
  have hok : (parseScript helloScript).toOption.isSome = true := by decide +kernel
  cases h : parseScript helloScript with
  | error e =>
    rw [h] at hok
    cases hok
  | ok plan => exact ⟨plan, rfl, parseScript_conserves helloScript plan h⟩

/-- A here-document whose body line ends in two carriage returns and a newline. -/
def carriageScript : String := "cat <<'E'\nx\r\r\nE\n"

/-- The body of a here-document loses a carriage return. -/
theorem parseScript_drops_a_carriage_return :
    ¬ ∀ input plan, parseScript input = .ok plan →
      (blocksOf plan.steps).flatMap Prod.snd = (keptSegments input).flatMap fun s =>
        s.lines.flatMap fun raw => raw ++ ['\n'] := by
  intro hall
  have hbad : ((parseScript carriageScript).toOption.any fun plan =>
      !decide ((blocksOf plan.steps).flatMap Prod.snd = (keptSegments carriageScript).flatMap
        fun s => s.lines.flatMap fun raw => raw ++ ['\n'])) = true := by
    decide +kernel
  cases h : parseScript carriageScript with
  | error e =>
    rw [h] at hbad
    cases hbad
  | ok plan =>
    have hplan : ¬ (blocksOf plan.steps).flatMap Prod.snd = (keptSegments carriageScript).flatMap
        fun s => s.lines.flatMap fun raw => raw ++ ['\n'] := by
      simpa only [h, Except.toOption, Option.any_some, Bool.not_eq_true',
        decide_eq_false_iff_not] using hbad
    exact hplan (hall carriageScript plan h)

end Shellflow
