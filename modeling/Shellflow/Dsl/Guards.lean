import Shellflow.Dsl.Places

/-! A guard belongs to the first block behind it. -/
namespace Shellflow
open Fallible State

/-- The command of an `@only_if`. -/
def ScriptLine.guard? : ScriptLine → Option String
  | .directive keyword payload _ => if keyword = "only_if" then some (Str.trim payload) else none
  | .text _ => none

/-- The guard of block `k`: the last `@only_if` that has `k` blocks in front of it. -/
def guardFor (script : List ScriptLine) (k : Nat) : Option String :=
  ((placedLines script).filterMap fun l => if l.1 = k then l.2.guard? else none).getLast?

def Step.guard : Step → Option String
  | .localBlock s => s.guard
  | .remote s => s.guard
  | _ => none

/-- The directives that add a step of another kind, or join one. -/
def stepDirectives : List String := "copy" :: hostDirectives ++ assertDirectives

/-- The guards of the blocks of the plan, and the pending one. -/
def State.guards (st : State) : List (Option String) :=
  (blocksWith Step.guard st.plan.steps).map Prod.snd ++ [st.pendingGuard]

section Lists

theorem getLast?_filterMap_singleton {α β : Type} (f : α → Option β) (a : α) :
    ([a].filterMap f).getLast? = f a := by
  cases h : f a with
  | none => rw [List.filterMap_cons_none h]; rfl
  | some b => rw [List.filterMap_cons_some h]; rfl

theorem guardFor_concat (script : List ScriptLine) (l : ScriptLine) (k : Nat) :
    guardFor (script ++ [l]) k =
      (if blocksIn script = k then l.guard? else none).or (guardFor script k) := by
  rw [guardFor, placedLines_concat, List.filterMap_append, List.getLast?_append,
    getLast?_filterMap_singleton]
  rfl

theorem guardFor_of_no_guard {script : List ScriptLine} {l : ScriptLine} (h : l.guard? = none)
    (k : Nat) : guardFor (script ++ [l]) k = guardFor script k := by
  rw [guardFor_concat, h, ite_self, Option.none_or]

/-- The last `@only_if` in front of a block gives it its guard. -/
theorem guardFor_last {before after : List ScriptLine} {payload : String} {line : Nat}
    (hlast : ∀ l ∈ placedFrom (before ++ [.directive "only_if" payload line]) after,
      l.1 = blocksIn before → l.2.guard? = none) :
    guardFor (before ++ .directive "only_if" payload line :: after) (blocksIn before) =
      some (Str.trim payload) := by
  have hnone : (placedFrom (before ++ [.directive "only_if" payload line]) after).filterMap
      (fun l => if l.1 = blocksIn before then l.2.guard? else none) = [] := by
    refine List.filterMap_eq_nil_iff.mpr fun l hl => ?_
    by_cases hk : l.1 = blocksIn before
    · rw [if_pos hk, hlast l hl hk]
    · rw [if_neg hk]
  have hself : (ScriptLine.directive "only_if" payload line).guard? = some (Str.trim payload) := by
    rw [ScriptLine.guard?, if_pos rfl]
  rw [guardFor, placedLines_split, List.filterMap_append, List.filterMap_cons_some
    (by rw [if_pos rfl, hself]), hnone, List.getLast?_concat]

end Lists

namespace State

section Steps

theorem guards_flush (st : State) (k : Nat) : st.flush.guards[k]?.getD none = st.guards[k]?.getD none := by
  unfold flush
  by_cases hexec : st.hasExecutable = true
  · have hblock : (blocksWith Step.guard [st.blockStep]).map Prod.snd = [st.pendingGuard] := by
      unfold blockStep
      cases st.mode with
      | localMode => rfl
      | remoteMode => rfl
    rw [if_pos hexec]
    have hguards : (blocksWith Step.guard (st.plan.steps ++ [st.blockStep])).map Prod.snd =
        st.guards := by
      rw [blocksWith_append, List.map_append, hblock, guards]
    change ((blocksWith Step.guard (st.plan.steps ++ [st.blockStep])).map Prod.snd ++ [none])[k]?.getD none
      = _
    rw [hguards, getD_concat_default]
  · rw [if_neg hexec]
    rfl

/-- What a handler does to the pending guard; one that adds or joins a step finds none. -/
def GuardAs (keyword : String) (handler : Handler) : Prop :=
  ∀ st payload line st', handler st payload line = .ok st' →
    st'.pendingGuard = (if keyword = "only_if" then some (Str.trim payload) else st.pendingGuard) ∧
      (keyword ∈ stepDirectives → st.pendingGuard = none)

theorem pendingGuard_pushAssertion (st : State) (target : String) (line : Nat)
    (check : Assertion) : (st.pushAssertion target line check).pendingGuard = st.pendingGuard := by
  unfold pushAssertion
  split <;> rfl

theorem pendingGuard_pushCopy (st : State) (c : CopyDirective) (line : Nat) :
    (st.pushCopy c line).pendingGuard = st.pendingGuard := by
  unfold pushCopy
  split <;> rfl

/-- Every directive but the three that set an option keeps the pending guard. -/
theorem Effect.pendingGuard {st st' : State} {keyword payload : String} {line : Nat}
    (h : Effect st payload line keyword st') (hkey : keyword ∉ ["timeout", "name", "only_if"]) :
    st'.pendingGuard = st.pendingGuard := by
  cases h with
  | option hmem => exact absurd hmem hkey
  | assertion hmem target check => exact pendingGuard_pushAssertion st target line check
  | copied c hparse => exact pendingGuard_pushCopy st.localLines c line
  | server | group | declared | enterLocal | enterRemote | hostStep | exportNext | exportLast => rfl

theorem guardAs_of_effect {keyword : String} {handler : Handler}
    (heffect : EffectAs keyword handler) (hkey : keyword ∉ ["timeout", "name", "only_if"])
    (hfree : ∀ st payload line st', handler st payload line = .ok st' →
      keyword ∈ stepDirectives → st.pendingGuard = none) : GuardAs keyword handler := by
  intro st payload line st' h
  have hne : keyword ≠ "only_if" := by
    rintro rfl
    exact hkey (by decide)
  rw [if_neg hne]
  exact ⟨(heffect st payload line st' h).pendingGuard hkey, hfree st payload line st' h⟩

theorem no_guard_of_rejectGuard {guard : Option String} {directive : String} {line : Nat} {u : Unit}
    (h : rejectGuard guard.isSome directive line = .ok u) : guard = none := by
  cases guard with
  | none => rfl
  | some command => cases h

theorem guardAs_addStep {α : Type} {directive : String} {wrap : α → Step}
    {parse : StepMeta → String → Nat → Except ParseError (String × α)}
    (hkey : directive ∈ hostDirectives) (hopt : directive ∉ ["timeout", "name", "only_if"])
    (hblock : ∀ a, ¬ (wrap a).IsBlock) : GuardAs directive (addStep directive wrap parse) := by
  refine guardAs_of_effect (effect_addStep hkey hblock) hopt fun st payload line st' h _ => ?_
  obtain ⟨_, hguard, -⟩ := bind_eq_ok.mp h
  exact no_guard_of_rejectGuard hguard

theorem guardAs_addAssertion {directive : String}
    {parse : String → Nat → Except ParseError (Option String × Assertion)}
    (hkey : directive ∈ assertDirectives) (hopt : directive ∉ ["timeout", "name", "only_if"]) :
    GuardAs directive (addAssertion directive parse) := by
  refine guardAs_of_effect (effect_addAssertion hkey) hopt fun st payload line st' h _ => ?_
  obtain ⟨_, hguard, -⟩ := bind_eq_ok.mp h
  exact no_guard_of_rejectGuard hguard

theorem guardAs_copyFiles : GuardAs "copy" copyFiles := by
  refine guardAs_of_effect effect_copyFiles (by decide) fun st payload line st' h _ => ?_
  obtain ⟨_, hguard, -⟩ := bind_eq_ok.mp h
  exact no_guard_of_rejectGuard hguard

/-- A directive that neither sets an option nor adds a step. -/
theorem guardAs_other {keyword : String} {handler : Handler}
    (heffect : EffectAs keyword handler) (hkey : keyword ∉ ["timeout", "name", "only_if"])
    (hstep : keyword ∉ stepDirectives) : GuardAs keyword handler :=
  guardAs_of_effect heffect hkey fun _ _ _ _ _ hmem => absurd hmem hstep

theorem guardAs_setTimeout : GuardAs "timeout" setTimeout := by
  intro st payload line st' h
  obtain ⟨seconds, -, h⟩ := bind_eq_ok.mp h
  obtain ⟨_, -, h⟩ := bind_eq_ok.mp h
  cases h
  exact ⟨rfl, fun hmem => absurd hmem (by decide)⟩

theorem guardAs_setName : GuardAs "name" setName := by
  intro st payload line st' h
  obtain ⟨_, -, h⟩ := bind_eq_ok.mp h
  cases h
  exact ⟨rfl, fun hmem => absurd hmem (by decide)⟩

theorem guardAs_setGuard : GuardAs "only_if" setGuard := by
  intro st payload line st' h
  obtain ⟨_, -, h⟩ := bind_eq_ok.mp h
  cases h
  exact ⟨rfl, fun hmem => absurd hmem (by decide)⟩

theorem guardAs_handlers : ∀ e ∈ handlers, GuardAs e.1 e.2 := by
  simp only [handlers, List.forall_mem_cons]
  refine ⟨guardAs_other effect_declareServer ?_ ?_, guardAs_other effect_declareGroup ?_ ?_,
    guardAs_other effect_declareEnv ?_ ?_, guardAs_other effect_declareSecrets ?_ ?_,
    guardAs_other effect_enterLocal ?_ ?_, guardAs_other effect_enterRemote ?_ ?_,
    guardAs_copyFiles, ?wait, ?reload, ?assert, ?health, ?port, ?portFree, ?enabled, ?rendered,
    ?service, ?install, ?backup, ?credstore, ?noLeak, ?digest, ?assertCredstore, ?inventory,
    ?helper, ?release, ?build, ?toolchain, ?image, guardAs_other effect_addWorkdir ?_ ?_,
    guardAs_other effect_declareExport ?_ ?_, guardAs_setTimeout, guardAs_setName,
    guardAs_setGuard, ?rest⟩
  case rest => exact fun e he => absurd he List.not_mem_nil
  case assert | health | port | portFree | enabled | rendered | noLeak | digest |
      assertCredstore =>
    exact guardAs_addAssertion (by decide) (by decide)
  case wait | reload | service | install | backup | credstore | inventory | helper | release |
      build | toolchain | image =>
    exact guardAs_addStep (by decide) (by decide) fun _ => not_false
  all_goals decide +kernel

theorem guard_applyDirective {st st' : State} {keyword payload : String} {line : Nat}
    (h : st.applyDirective keyword payload line = .ok st') :
    st'.pendingGuard = (if keyword = "only_if" then some (Str.trim payload)
        else (st.beforeDirective keyword).pendingGuard) ∧
      (keyword ∈ stepDirectives → (st.beforeDirective keyword).pendingGuard = none) := by
  unfold applyDirective at h
  cases hhandler : handlers.lookup keyword with
  | none =>
    rw [hhandler] at h
    cases h
  | some handler =>
    rw [hhandler] at h
    obtain ⟨before, after, htable, -⟩ := List.lookup_eq_some_iff.mp hhandler
    have hmem : (keyword, handler) ∈ handlers :=
      htable ▸ List.mem_append_right before List.mem_cons_self
    exact guardAs_handlers (keyword, handler) hmem (st.beforeDirective keyword) payload line st' h

theorem blocksWith_guard_of_effect {st st' : State} {keyword payload : String} {line : Nat}
    (h : Effect st payload line keyword st') :
    blocksWith Step.guard st'.plan.steps = blocksWith Step.guard st.plan.steps := by
  by_cases hkey : keyword = "export"
  · cases h with
    | exportNext vars => rfl
    | exportLast vars s hlast => exact blocksWith_replaceLast Step.guard hlast rfl
    | declared hmem | option hmem | hostStep hmem | assertion hmem =>
      exact absurd (hkey ▸ hmem) (by decide)
    | server | group | enterLocal | enterRemote | copied => exact absurd hkey (by decide)
  · exact blocksWith_of_effect Step.guard h hkey

theorem guards_beforeDirective (st : State) (keyword : String) (k : Nat) :
    (st.beforeDirective keyword).guards[k]?.getD none = st.guards[k]?.getD none := by
  unfold beforeDirective
  split
  · rfl
  · exact guards_flush st k

/-- One line gives its guard to the block that begins next, and changes no other. -/
theorem guards_scanLine {st st' : State} {seen : List (List Char × Nat)}
    {numbered : List Char × Nat} (hrun : seen.foldlM scanLine .new = .ok st)
    (hguards : ∀ k, st.guards[k]?.getD none = guardFor (readLines ⟨[]⟩ seen) k)
    (h : st.scanLine numbered = .ok st') (k : Nat) :
    st'.guards[k]?.getD none =
      guardFor (readLines ⟨[]⟩ seen ++ [readLine st.heredocs numbered]) k := by
  cases effect_scanLine h with
  | body hbody =>
    rw [readLine_text (.inl hbody), guardFor_of_no_guard rfl]
    exact hguards k
  | text hbody hdir =>
    rw [readLine_text (.inr hdir), guardFor_of_no_guard rfl]
    exact hguards k
  | @directive keyword payload _ hbody hdir heffect =>
    have hline := readLine_of_directive hbody hdir
    rw [scanLine_of_readLine hline] at h
    obtain ⟨hpending, -⟩ := guard_applyDirective h
    have hblocks := blocksWith_guard_of_effect heffect
    rw [hline, guards, hblocks, hpending]
    by_cases hkey : keyword = "only_if"
    · have hflush : st.beforeDirective keyword = st.flush := by
        rw [beforeDirective, if_neg (by rw [hkey]; decide)]
      have hguard : (ScriptLine.directive keyword payload numbered.2).guard? =
          some (Str.trim payload) := if_pos hkey
      have hlength : ((blocksWith Step.guard st.flush.plan.steps).map Prod.snd).length =
          blocksIn (readLines ⟨[]⟩ seen) := by
        rw [List.length_map, length_blocksWith, blocksIn_of_flush hrun]
      have hold := hguards k
      rw [← guards_flush, guards, getD_concat, hlength] at hold
      rw [if_pos hkey, hflush, getD_concat, hlength, guardFor_concat, hguard]
      by_cases hk : k = blocksIn (readLines ⟨[]⟩ seen)
      · rw [if_pos hk, if_pos hk.symm, Option.some_or]
      · rw [if_neg hk] at hold
        rw [if_neg hk, if_neg (Ne.symm hk), Option.none_or, hold]
    · have hguard : (ScriptLine.directive keyword payload numbered.2).guard? = none := if_neg hkey
      rw [if_neg hkey, guardFor_of_no_guard hguard, ← hguards k, ← guards_beforeDirective st keyword]
      rfl

/-- The guards of the blocks so far are those that the lines so far give them. -/
theorem guards_run {seen : List (List Char × Nat)} {st : State}
    (h : seen.foldlM scanLine .new = .ok st) (k : Nat) :
    st.guards[k]?.getD none = guardFor (readLines ⟨[]⟩ seen) k := by
  refine read_run (P := fun script st => ∀ k, st.guards[k]?.getD none = guardFor script k)
    (fun k => ?_) (fun seen st numbered st' hrun hguards h => guards_scanLine hrun hguards h)
    seen st h k
  cases k with
  | zero => rfl
  | succ k => rfl

end Steps
end State

/-- Each block has the guard of the last `@only_if` between the block before it and itself: an
`@only_if` parts the blocks in front of it from the one it guards. Nothing else is guarded, as a
directive that adds or joins another step has no pending guard in front of it. -/
theorem parseScript_guards (input : String) (plan : ExecutionPlan)
    (h : parseScript input = .ok plan) :
    blocksWith Step.guard plan.steps =
        (keptSegments input).zipIdx.map
          (fun s => (s.1.block, guardFor (scriptLines input) s.2)) ∧
      (∀ before keyword payload line after,
        scriptLines input = before ++ .directive keyword payload line :: after →
        keyword ∈ stepDirectives → guardFor before (blocksIn before) = none) ∧
      ∀ before payload line after,
        scriptLines input = before ++ .directive "only_if" payload line :: after →
        (∃ target, segments input = segmentsFrom none [] before ++ segmentsFrom target [] after) ∧
          ((∀ l ∈ placedFrom (before ++ [.directive "only_if" payload line]) after,
              l.1 = blocksIn before → l.2.guard? = none) →
            guardFor (scriptLines input) (blocksIn before) = some (Str.trim payload)) := by
  obtain ⟨final, hrun, hfinish⟩ := bind_eq_ok.mp h
  refine ⟨blocksWith_eq Step.guard (blocksOf_parse h) fun k b hb => ?_, ?_, ?_⟩
  · have hlist : final.flush.guards[k]?.getD none = b.2 := by
      have hmap : ((blocksWith Step.guard final.flush.plan.steps).map Prod.snd)[k]? =
          some b.2 := by
        rw [List.getElem?_map, ← finish_ok hfinish, hb]
        rfl
      rw [guards, List.getElem?_append_left (List.getElem?_eq_some_iff.mp hmap).1, hmap]
      rfl
    rw [← hlist, guards_flush]
    exact guards_run hrun k
  · intro before keyword payload line after hsplit hstep
    obtain ⟨seen, numbered, rest, mid, next, -, hseen, hbefore, hline, hnext, -⟩ :=
      split_of_run hrun hsplit
    rw [scanLine_of_readLine hline.symm] at hnext
    have hnone := (guard_applyDirective hnext).2 hstep
    have hflush : mid.beforeDirective keyword = mid.flush := by
      rw [beforeDirective, if_neg]
      rintro rfl
      exact absurd hstep (by decide +kernel)
    have hlength : ((blocksWith Step.guard mid.flush.plan.steps).map Prod.snd).length =
        blocksIn (readLines ⟨[]⟩ seen) := by
      rw [List.length_map, length_blocksWith, blocksIn_of_flush hseen]
    have hguard := guards_run hseen (blocksIn (readLines ⟨[]⟩ seen))
    rw [← guards_flush, guards, getD_concat, if_pos hlength.symm] at hguard
    have hread : before = readLines ⟨[]⟩ seen := hbefore
    rw [hread, ← hguard, ← hflush, hnone]
  · intro before payload line after hsplit
    refine ⟨?_, fun hlast => hsplit ▸ guardFor_last hlast⟩
    rw [segments, hsplit]
    exact segmentsFrom_split none [] before after payload line (by decide)

/-- A guard that another one replaces, and a block behind both. -/
def guardedScript : String := "# @only_if test -f a\n# @only_if test -f b\necho hi\n"

theorem parseScript_guards_replaced : ∃ plan, parseScript guardedScript = .ok plan ∧
    blocksWith Step.guard plan.steps =
        (keptSegments guardedScript).zipIdx.map
          (fun s => (s.1.block, guardFor (scriptLines guardedScript) s.2)) ∧
      (∀ before keyword payload line after,
        scriptLines guardedScript = before ++ .directive keyword payload line :: after →
        keyword ∈ stepDirectives → guardFor before (blocksIn before) = none) ∧
      ∀ before payload line after,
        scriptLines guardedScript = before ++ .directive "only_if" payload line :: after →
        (∃ target, segments guardedScript =
            segmentsFrom none [] before ++ segmentsFrom target [] after) ∧
          ((∀ l ∈ placedFrom (before ++ [.directive "only_if" payload line]) after,
              l.1 = blocksIn before → l.2.guard? = none) →
            guardFor (scriptLines guardedScript) (blocksIn before) = some (Str.trim payload)) := by
  have hok : (parseScript guardedScript).toOption.isSome = true := by decide +kernel
  cases h : parseScript guardedScript with
  | error e =>
    rw [h] at hok
    cases hok
  | ok plan => exact ⟨plan, rfl, parseScript_guards guardedScript plan h⟩

end Shellflow
