import Shellflow.Dsl.Conserve

/-! Where a directive stands among the blocks: the number of blocks that have begun in front of
it. -/
namespace Shellflow
open Fallible State

/-- The blocks that have begun in these lines. -/
def blocksIn (script : List ScriptLine) : Nat := (keptBlocks (segmentsFrom none [] script)).length

/-- Each line with the number of blocks that have begun in front of it. -/
def placedFrom (seen : List ScriptLine) : List ScriptLine → List (Nat × ScriptLine)
  | [] => []
  | l :: rest => (blocksIn seen, l) :: placedFrom (seen ++ [l]) rest

def placedLines (script : List ScriptLine) : List (Nat × ScriptLine) := placedFrom [] script

/-- The blocks of a plan, each with what `f` reads from its step. -/
def blocksWith {β : Type} (f : Step → β) (steps : List Step) :
    List ((Option Target × List Char) × β) :=
  steps.filterMap fun step => step.block?.map fun block => (block, f step)

/-- A line as the scanner reads it. -/
def readLine (heredocs : HeredocTracker) (numbered : List Char × Nat) : ScriptLine :=
  if (heredocs.consumeBody (stripCr numbered.1)).2 then .text numbered.1
  else
    match directive (stripCr numbered.1) with
    | some (keyword, payload) => .directive keyword payload numbered.2
    | none => .text numbered.1

section Placed

theorem placedFrom_append (seen script rest : List ScriptLine) :
    placedFrom seen (script ++ rest) =
      placedFrom seen script ++ placedFrom (seen ++ script) rest := by
  induction script generalizing seen with
  | nil => simp [placedFrom]
  | cons l script ih =>
    rw [List.cons_append, placedFrom, placedFrom, ih, List.append_assoc, List.singleton_append,
      List.cons_append]

theorem placedLines_concat (script : List ScriptLine) (l : ScriptLine) :
    placedLines (script ++ [l]) = placedLines script ++ [(blocksIn script, l)] := by
  rw [placedLines, placedFrom_append]
  rfl

theorem placedLines_split (before after : List ScriptLine) (l : ScriptLine) :
    placedLines (before ++ l :: after) =
      placedLines before ++ (blocksIn before, l) :: placedFrom (before ++ [l]) after := by
  rw [placedLines, placedFrom_append]
  rfl

/-- A directive that ends a segment parts the segments in front of it from those behind it. -/
theorem segmentsFrom_split (target : Option Target) (lines : List (List Char))
    (before after : List ScriptLine) {keyword : String} (payload : String) (line : Nat)
    (hkey : keyword ≠ "export") :
    ∃ next, segmentsFrom target lines (before ++ .directive keyword payload line :: after) =
      segmentsFrom target lines before ++ segmentsFrom next [] after := by
  induction before generalizing target lines with
  | nil =>
    exact ⟨targetAfter target keyword payload line, if_neg hkey⟩
  | cons l before ih =>
    cases l with
    | text raw => exact ih target (lines ++ [raw])
    | directive other payload' line' =>
      by_cases hexport : other = "export"
      · rw [List.cons_append, segmentsFrom, segmentsFrom, if_pos hexport, if_pos hexport]
        exact ih target lines
      · obtain ⟨next, hnext⟩ := ih (targetAfter target other payload' line') []
        refine ⟨next, ?_⟩
        rw [List.cons_append, segmentsFrom, segmentsFrom, if_neg hexport, if_neg hexport, hnext,
          List.cons_append]

end Placed

section Lists
variable {β : Type} (l : List β) (a d : β) (k : Nat)

theorem getD_concat : (l ++ [a])[k]?.getD d = if k = l.length then a else l[k]?.getD d := by
  by_cases hk : k = l.length
  · rw [if_pos hk, hk, List.getElem?_concat_length, Option.getD_some]
  · rw [if_neg hk]
    by_cases hlt : k < l.length
    · rw [List.getElem?_append_left hlt]
    · have hlength : (l ++ [a]).length ≤ k := by
        rw [List.length_append, List.length_singleton]
        omega
      rw [List.getElem?_eq_none hlength, List.getElem?_eq_none (by omega)]

theorem getD_concat_default : (l ++ [d])[k]?.getD d = l[k]?.getD d := by
  rw [getD_concat]
  by_cases hk : k = l.length
  · rw [if_pos hk, hk, List.getElem?_eq_none (Nat.le_refl _), Option.getD_none]
  · rw [if_neg hk]

end Lists

section Blocks
variable {β : Type} (f : Step → β)

theorem blocksWith_append (steps steps' : List Step) :
    blocksWith f (steps ++ steps') = blocksWith f steps ++ blocksWith f steps' :=
  List.filterMap_append

theorem blocksWith_fst (steps : List Step) :
    (blocksWith f steps).map Prod.fst = blocksOf steps := by
  induction steps with
  | nil => rfl
  | cons step steps ih =>
    cases hblock : step.block? with
    | none =>
      rw [blocksWith, List.filterMap_cons_none (by rw [hblock]; rfl), blocksOf,
        List.filterMap_cons_none hblock]
      exact ih
    | some block =>
      rw [blocksWith, List.filterMap_cons_some (by rw [hblock]; rfl), blocksOf,
        List.filterMap_cons_some hblock, List.map_cons]
      exact congrArg (block :: ·) ih

theorem length_blocksWith (steps : List Step) :
    (blocksWith f steps).length = (blocksOf steps).length := by
  rw [← blocksWith_fst f, List.length_map]

theorem blocksWith_of_not_isBlock {step : Step} (h : ¬ step.IsBlock) : blocksWith f [step] = [] := by
  cases step with
  | localBlock s => exact absurd trivial h
  | remote s => exact absurd trivial h
  | _ => rfl

/-- Changing the last step for one that reads the same. -/
theorem blocksWith_replaceLast {steps : List Step} {old new : Step}
    (hlast : steps.getLast? = some old) (hnew : blocksWith f [new] = blocksWith f [old]) :
    blocksWith f (steps.dropLast ++ [new]) = blocksWith f steps := by
  have hsplit : steps = steps.dropLast ++ [old] := (List.dropLast_append_getLast? old hlast).symm
  rw [blocksWith_append, hnew, ← blocksWith_append, ← hsplit]

theorem blocksWith_pushAssertion (st : State) (target : String) (line : Nat) (check : Assertion) :
    blocksWith f (st.pushAssertion target line check).plan.steps =
      blocksWith f st.plan.steps := by
  unfold pushAssertion
  cases hmerge : st.assertMergeable target with
  | none => exact (blocksWith_append f _ _).trans (List.append_nil _)
  | some existing => exact blocksWith_replaceLast f (assertMergeable_last hmerge) rfl

theorem blocksWith_pushCopy (st : State) (c : CopyDirective) (line : Nat) :
    blocksWith f (st.pushCopy c line).plan.steps = blocksWith f st.plan.steps := by
  unfold pushCopy
  cases hmerge : st.copyMergeable c with
  | none => exact (blocksWith_append f _ _).trans (List.append_nil _)
  | some existing => exact blocksWith_replaceLast f (copyMergeable_last hmerge) rfl

/-- Only `@export` changes what is read from a block. -/
theorem blocksWith_of_effect {st st' : State} {keyword payload : String} {line : Nat}
    (h : Effect st payload line keyword st') (hkey : keyword ≠ "export") :
    blocksWith f st'.plan.steps = blocksWith f st.plan.steps := by
  cases h with
  | hostStep hmem target step hblock =>
    have hsteps : (st.emit target step).plan.steps = st.plan.steps ++ [step] := rfl
    rw [hsteps, blocksWith_append, blocksWith_of_not_isBlock f hblock, List.append_nil]
  | assertion hmem target check => exact blocksWith_pushAssertion f st target line check
  | copied c hparse => exact blocksWith_pushCopy f st.localLines c line
  | exportNext | exportLast => exact absurd rfl hkey
  | server | group | declared | option | enterLocal | enterRemote => rfl

/-- The blocks of the segments, each with what belongs to its number. -/
theorem blocksWith_eq {steps : List Step} {segs : List Segment} {g : Nat → β}
    (hblocks : blocksOf steps = segs.map Segment.block)
    (hread : ∀ k b, (blocksWith f steps)[k]? = some b → b.2 = g k) :
    blocksWith f steps = segs.zipIdx.map fun s => (s.1.block, g s.2) := by
  have hlength : (blocksWith f steps).length = segs.length := by
    rw [length_blocksWith, hblocks, List.length_map]
  refine List.ext_getElem (by simpa using hlength) fun k hk hk' => ?_
  have hsnd := hread k (blocksWith f steps)[k] (List.getElem?_eq_getElem hk)
  have hseg : k < segs.length := hlength ▸ hk
  have hfst : (blocksWith f steps)[k].1 = segs[k].block := by
    have hmap : ((blocksWith f steps).map Prod.fst)[k]? = (segs.map Segment.block)[k]? := by
      rw [blocksWith_fst, hblocks]
    rw [List.getElem?_map, List.getElem?_map, List.getElem?_eq_getElem hk,
      List.getElem?_eq_getElem hseg] at hmap
    exact Option.some.inj hmap
  rw [List.getElem_map, List.getElem_zipIdx, Nat.zero_add]
  exact Prod.ext hfst hsnd

end Blocks

section Run

theorem heredocs_of_effect {st st' : State} {keyword payload : String} {line : Nat}
    (h : Effect (st.beforeDirective keyword) payload line keyword st') :
    st'.heredocs = st.heredocs := by
  rw [h.sameBlocks.heredocs, beforeDirective]
  split
  · rfl
  · exact flush_heredocs st

theorem readLines_cons {st st' : State} {numbered : List Char × Nat}
    (h : st.scanLine numbered = .ok st') (rest : List (List Char × Nat)) :
    readLines st.heredocs (numbered :: rest) =
      readLine st.heredocs numbered :: readLines st'.heredocs rest := by
  obtain ⟨raw, n⟩ := numbered
  cases effect_scanLine h with
  | body hbody => simp [readLines, readLine, hbody]
  | text hbody hdir => simp [readLines, readLine, hbody, hdir]
  | directive hbody hdir heffect =>
    rw [heredocs_of_effect heffect]
    simp [readLines, readLine, hbody, hdir]

theorem readLines_singleton (heredocs : HeredocTracker) (numbered : List Char × Nat) :
    readLines heredocs [numbered] = [readLine heredocs numbered] := by
  obtain ⟨raw, n⟩ := numbered
  cases hbody : (heredocs.consumeBody (stripCr raw)).2 with
  | true => simp [readLines, readLine, hbody]
  | false =>
    cases hdir : directive (stripCr raw) with
    | none => simp [readLines, readLine, hbody, hdir]
    | some found => simp [readLines, readLine, hbody, hdir]

theorem readLine_of_directive {heredocs : HeredocTracker} {numbered : List Char × Nat}
    {keyword payload : String} (hbody : (heredocs.consumeBody (stripCr numbered.1)).2 = false)
    (hdir : directive (stripCr numbered.1) = some (keyword, payload)) :
    readLine heredocs numbered = .directive keyword payload numbered.2 := by
  simp [readLine, hbody, hdir]

/-- A line that is read as a directive is scanned as one. -/
theorem scanLine_of_readLine {st : State} {numbered : List Char × Nat} {keyword payload : String}
    {n : Nat} (h : readLine st.heredocs numbered = .directive keyword payload n) :
    st.scanLine numbered = st.applyDirective keyword payload n := by
  unfold readLine at h
  split at h
  · cases h
  next hbody =>
    split at h
    next hdir =>
      cases h
      simp [scanLine, hbody, hdir]
    next => cases h

/-- What was read in front of a line, and the line itself. -/
theorem readLines_concat {st st' : State} {seen : List (List Char × Nat)}
    (h : seen.foldlM scanLine st = .ok st') (numbered : List Char × Nat) :
    readLines st.heredocs (seen ++ [numbered]) =
      readLines st.heredocs seen ++ [readLine st'.heredocs numbered] := by
  induction seen generalizing st with
  | nil =>
    cases h
    exact readLines_singleton _ numbered
  | cons l seen ih =>
    rw [List.foldlM_cons] at h
    obtain ⟨mid, hmid, h⟩ := bind_eq_ok.mp h
    rw [List.cons_append, readLines_cons hmid, readLines_cons hmid, ih h, List.cons_append]

/-- What each line preserves, with the lines read so far, a run preserves. -/
theorem read_run {P : List ScriptLine → State → Prop} (hnew : P [] .new)
    (hstep : ∀ seen st numbered st', seen.foldlM scanLine .new = .ok st →
      P (readLines ⟨[]⟩ seen) st → st.scanLine numbered = .ok st' →
      P (readLines ⟨[]⟩ seen ++ [readLine st.heredocs numbered]) st')
    (seen : List (List Char × Nat)) (st : State) (h : seen.foldlM scanLine .new = .ok st) :
    P (readLines ⟨[]⟩ seen) st := by
  induction seen using List.reverseRecOn generalizing st with
  | nil =>
    cases h
    exact hnew
  | append_singleton seen numbered ih =>
    rw [List.foldlM_append] at h
    obtain ⟨mid, hmid, h⟩ := bind_eq_ok.mp h
    obtain ⟨last, hlast, h⟩ := bind_eq_ok.mp h
    cases h
    have hread : readLines ⟨[]⟩ (seen ++ [numbered]) =
        readLines ⟨[]⟩ seen ++ [readLine mid.heredocs numbered] := readLines_concat hmid numbered
    rw [hread]
    exact hstep seen mid numbered _ hmid (ih mid hmid) hlast

/-- The scanner stands in front of each line of the script once. -/
theorem split_of_run {st final : State} {script : List (List Char × Nat)}
    (h : script.foldlM scanLine st = .ok final) {before after : List ScriptLine} {l : ScriptLine}
    (hsplit : readLines st.heredocs script = before ++ l :: after) :
    ∃ seen numbered rest mid next, script = seen ++ numbered :: rest ∧
      seen.foldlM scanLine st = .ok mid ∧ before = readLines st.heredocs seen ∧
      l = readLine mid.heredocs numbered ∧ mid.scanLine numbered = .ok next ∧
      rest.foldlM scanLine next = .ok final := by
  induction script generalizing st before with
  | nil =>
    rw [readLines] at hsplit
    exact absurd hsplit.symm (by simp)
  | cons numbered script ih =>
    rw [List.foldlM_cons] at h
    obtain ⟨next, hnext, h⟩ := bind_eq_ok.mp h
    rw [readLines_cons hnext] at hsplit
    cases before with
    | nil =>
      rw [List.nil_append, List.cons.injEq] at hsplit
      exact ⟨[], numbered, script, st, next, rfl, rfl, rfl, hsplit.1.symm, hnext, h⟩
    | cons first before =>
      rw [List.cons_append, List.cons.injEq] at hsplit
      obtain ⟨seen, numbered', rest, mid, next', hscript, hseen, hbefore, hl, hstep, hrest⟩ :=
        ih h hsplit.2
      refine ⟨numbered :: seen, numbered', rest, mid, next', ?_, ?_, ?_, hl, hstep, hrest⟩
      · rw [hscript, List.cons_append]
      · rw [List.foldlM_cons, hnext]
        exact hseen
      · rw [readLines_cons hnext, hsplit.1, hbefore]

theorem readLine_text {st : State} {numbered : List Char × Nat}
    (h : (st.heredocs.consumeBody (stripCr numbered.1)).2 = true ∨
      directive (stripCr numbered.1) = none) :
    readLine st.heredocs numbered = .text numbered.1 := by
  unfold readLine
  cases hbody : (st.heredocs.consumeBody (stripCr numbered.1)).2 with
  | true => rfl
  | false =>
    have hdir := h.resolve_left (by rw [hbody]; exact Bool.false_ne_true)
    rw [hdir]
    rfl

/-- The blocks that have begun are those of the plan, and the pending one if it has something to
execute. -/
theorem blocksIn_of_run {st : State} {seen : List (List Char × Nat)}
    (h : seen.foldlM scanLine .new = .ok st) :
    blocksIn (readLines ⟨[]⟩ seen) =
      (blocksOf st.plan.steps).length + if st.hasExecutable then 1 else 0 := by
  have hnew : State.new.Holds [] := rfl
  obtain ⟨lines, hlines, hblocks⟩ := allBlocks_run hnew h
  have hall : keptBlocks (segmentsFrom none [] (readLines ⟨[]⟩ seen)) =
      blocksOf st.plan.steps ++ keptBlocks [⟨st.place, lines⟩] := hblocks.symm
  rw [blocksIn, hall, List.length_append, hasExecutable_eq hlines, keptBlocks, List.filter_cons]
  split <;> rfl

theorem blocksIn_of_flush {st : State} {seen : List (List Char × Nat)}
    (h : seen.foldlM scanLine .new = .ok st) :
    (blocksOf st.flush.plan.steps).length = blocksIn (readLines ⟨[]⟩ seen) := by
  have hnew : State.new.Holds [] := rfl
  obtain ⟨lines, hlines, hblocks⟩ := allBlocks_run hnew h
  rw [blocksOf_flush hlines]
  exact congrArg List.length hblocks

/-- A pending block that has something to execute is the next block of the plan. -/
theorem keptBlocks_pending {target : Option Target} {lines : List (List Char)}
    (h : (Segment.mk target lines).isExecutable = true) (script : List ScriptLine) :
    ∃ text rest, keptBlocks (segmentsFrom target lines script) = (target, text) :: rest := by
  induction script generalizing lines with
  | nil =>
    refine ⟨(Segment.mk target lines).script, [], ?_⟩
    rw [segmentsFrom, keptBlocks, List.filter_cons_of_pos h]
    rfl
  | cons l script ih =>
    cases l with
    | text raw =>
      refine @ih (lines ++ [raw]) ?_
      rw [Segment.isExecutable, List.any_append]
      exact (congrArg (· || _) h).trans (Bool.true_or _)
    | directive keyword payload line =>
      by_cases hkey : keyword = "export"
      · rw [segmentsFrom, if_pos hkey]
        exact ih h
      · rw [segmentsFrom, if_neg hkey, keptBlocks, List.filter_cons_of_pos h]
        exact ⟨_, _, rfl⟩

/-- The blocks of the plan, seen from one state of the run. -/
theorem blocksOf_from {st final : State} {plan : ExecutionPlan} {lines : List (List Char)}
    {rest : List (List Char × Nat)} (hlines : st.Holds lines)
    (hrest : rest.foldlM scanLine st = .ok final) (hfinish : final.finish = .ok plan) :
    blocksOf plan.steps = blocksOf st.plan.steps ++
      keptBlocks (segmentsFrom st.place lines (readLines st.heredocs rest)) := by
  obtain ⟨lines', hlines', hblocks⟩ := allBlocks_run hlines hrest
  have hlast : final.allBlocks lines' [] = blocksOf plan.steps := by
    rw [finish_ok hfinish, blocksOf_flush hlines']
    rfl
  rw [← hlast, hblocks]
  rfl

end Run
end Shellflow
