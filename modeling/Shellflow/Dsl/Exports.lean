import Shellflow.Dsl.Places

/-! An `@export` belongs to the last block that has begun in front of it, a local one. -/
namespace Shellflow
open Fallible State

/-- The variables of an `@export`. -/
def ScriptLine.exports : ScriptLine → List ExportVar
  | .directive keyword payload line =>
    if keyword = "export" then (parseExport payload line).toOption.getD [] else []
  | .text _ => []

/-- The exports of block `k`, from the lines behind its begin and in front of the next one's. -/
def exportsFor (script : List ScriptLine) (k : Nat) : List ExportVar :=
  (placedLines script).flatMap fun l => if l.1 = k + 1 then l.2.exports else []

def Step.exports : Step → List ExportVar
  | .localBlock s => s.exports
  | _ => []

/-- The exports of the blocks of the plan, and the pending ones. -/
def State.exportLists (st : State) : List (List ExportVar) :=
  (blocksWith Step.exports st.plan.steps).map Prod.snd ++ [st.pendingExport]

/-- Only a local block with something to execute has exports while it is pending. -/
def State.Captures (st : State) : Prop :=
  st.pendingExport ≠ [] → st.hasExecutable = true ∧ st.mode = .localMode

section Lists

theorem exportsFor_concat (script : List ScriptLine) (l : ScriptLine) (k : Nat) :
    exportsFor (script ++ [l]) k =
      exportsFor script k ++ if blocksIn script = k + 1 then l.exports else [] := by
  rw [exportsFor, placedLines_concat, List.flatMap_append, List.flatMap_singleton]
  rfl

theorem exportsFor_of_no_export {script : List ScriptLine} {l : ScriptLine}
    (h : l.exports = []) (k : Nat) : exportsFor (script ++ [l]) k = exportsFor script k := by
  rw [exportsFor_concat, h, ite_self, List.append_nil]

end Lists

namespace State

section Steps
variable {st st' : State} {keyword payload : String} {line : Nat}

theorem parseExport_ne_nil {vars : List ExportVar} (h : parseExport payload line = .ok vars) :
    vars ≠ [] := by
  obtain ⟨⟨positional, flags⟩, -, h⟩ := bind_eq_ok.mp h
  obtain ⟨_, -, h⟩ := bind_eq_ok.mp h
  obtain ⟨names, -, h⟩ := bind_eq_ok.mp h
  obtain ⟨_, hnames, h⟩ := bind_eq_ok.mp h
  have hsome : commaList names ≠ [] := by
    have hempty := ensure_ok hnames
    intro hnil
    rw [hnil] at hempty
    cases hempty
  split at h
  · cases h
  · cases h
    exact fun hnil => hsome (List.map_eq_nil_iff.mp hnil)

/-- An accepted `@export` has variables, and a local block to put them in. -/
theorem declareExport_cases (h : declareExport st payload line = .ok st') :
    ∃ vars, parseExport payload line = .ok vars ∧
      ((st.hasExecutable = true ∧ st.mode = .localMode ∧
          st' = { st with pendingExport := st.pendingExport ++ vars }) ∨
        st.hasExecutable = false ∧ ∃ s, st.plan.steps.getLast? = some (.localBlock s) ∧
          st' = st.withSteps (st.plan.steps.dropLast ++ [.localBlock { s with
            exports := s.exports ++ vars }])) := by
  obtain ⟨vars, hvars, h⟩ := bind_eq_ok.mp h
  refine ⟨vars, hvars, ?_⟩
  split at h
  next hexec =>
    split at h
    next hmode => exact .inl ⟨hexec, hmode, (Except.ok.inj h).symm⟩
    next => cases h
  next hexec =>
    split at h
    next s hlast =>
      exact .inr ⟨Bool.eq_false_iff.mpr hexec, s, hlast, (Except.ok.inj h).symm⟩
    next => cases h

theorem applyDirective_export (st : State) (payload : String) (line : Nat) :
    st.applyDirective "export" payload line = declareExport st payload line := rfl

/-- Every other directive keeps the pending exports. -/
theorem Effect.pendingExport (h : Effect st payload line keyword st') (hkey : keyword ≠ "export") :
    st'.pendingExport = st.pendingExport := by
  cases h with
  | assertion hmem target check =>
    unfold pushAssertion
    split <;> rfl
  | copied c hparse =>
    unfold pushCopy
    split <;> rfl
  | exportNext | exportLast => exact absurd rfl hkey
  | server | group | declared | option | enterLocal | enterRemote | hostStep => rfl

theorem Captures.flush (h : st.Captures) : st.flush.pendingExport = [] := by
  unfold State.flush
  by_cases hexec : st.hasExecutable = true
  · rw [if_pos hexec]
  · rw [if_neg hexec]
    exact not_imp_comm.mp h fun hboth => hexec hboth.1

/-- A flush gives the pending exports to the block that it closes. -/
theorem exportLists_flush (h : st.Captures) (k : Nat) :
    st.flush.exportLists[k]?.getD [] = st.exportLists[k]?.getD [] := by
  by_cases hexec : st.hasExecutable = true
  · have hblock : (blocksWith Step.exports [st.blockStep]).map Prod.snd = [st.pendingExport] := by
      cases hmode : st.mode with
      | localMode =>
        rw [blockStep, hmode]
        rfl
      | remoteMode =>
        have hnone : st.pendingExport = [] := by
          refine not_imp_comm.mp h fun hboth => ?_
          rw [hmode] at hboth
          cases hboth.2
        rw [blockStep, hmode, hnone]
        rfl
    have hlists : (blocksWith Step.exports (st.plan.steps ++ [st.blockStep])).map Prod.snd =
        st.exportLists := by
      rw [blocksWith_append, List.map_append, hblock, exportLists]
    unfold State.flush
    rw [if_pos hexec]
    change ((blocksWith Step.exports (st.plan.steps ++ [st.blockStep])).map Prod.snd ++
      [[]])[k]?.getD [] = _
    rw [hlists, getD_concat_default]
  · unfold State.flush
    rw [if_neg hexec]
    rfl

theorem hasExecutable_append (lines : List (List Char)) (heredocs : HeredocTracker)
    (h : st.hasExecutable = true) :
    State.hasExecutable { st with heredocs := heredocs, pending := st.pending ++ lines } = true := by
  unfold hasExecutable at h ⊢
  rw [List.any_append, h, Bool.true_or]

theorem captures_scanLine (st : State) (numbered : List Char × Nat) (st' : State)
    (hst : st.Captures) (h : st.scanLine numbered = .ok st') : st'.Captures := by
  cases effect_scanLine h with
  | body hbody =>
    exact fun hne => ⟨hasExecutable_append [stripCr numbered.1] _ (hst hne).1, (hst hne).2⟩
  | text hbody hdir =>
    exact fun hne => ⟨hasExecutable_append [stripCr numbered.1] _ (hst hne).1, (hst hne).2⟩
  | @directive keyword payload _ hbody hdir heffect =>
    by_cases hkey : keyword = "export"
    · subst hkey
      rw [scanLine_of_readLine (readLine_of_directive hbody hdir), applyDirective_export] at h
      obtain ⟨vars, -, hcases⟩ := declareExport_cases h
      cases hcases with
      | inl hpending =>
        obtain ⟨hexec, hmode, rfl⟩ := hpending
        exact fun _ => ⟨hexec, hmode⟩
      | inr hlast =>
        obtain ⟨-, s, -, rfl⟩ := hlast
        exact hst
    · intro hne
      have hflush : st.beforeDirective keyword = st.flush := by rw [beforeDirective, if_neg hkey]
      rw [heffect.pendingExport hkey, hflush, hst.flush] at hne
      exact absurd rfl hne

theorem captures_run {seen : List (List Char × Nat)} (h : seen.foldlM scanLine .new = .ok st) :
    st.Captures :=
  foldlM_invariant Captures captures_scanLine (fun hne => absurd rfl hne) h

/-- The exports of an `@export` join those of the last block that has begun. -/
theorem exportLists_declareExport {vars : List ExportVar} {n : Nat} (hst : st.Captures)
    (hcount : n = (blocksOf st.plan.steps).length + if st.hasExecutable then 1 else 0)
    (hvars : parseExport payload line = .ok vars) (h : declareExport st payload line = .ok st')
    (k : Nat) :
    st'.exportLists[k]?.getD [] =
      st.exportLists[k]?.getD [] ++ if n = k + 1 then vars else [] := by
  obtain ⟨found, hfound, hcases⟩ := declareExport_cases h
  rw [hvars] at hfound
  cases hfound
  cases hcases with
  | inl hpending =>
    obtain ⟨hexec, hmode, rfl⟩ := hpending
    have hlength : ((blocksWith Step.exports st.plan.steps).map Prod.snd).length + 1 = n := by
      rw [List.length_map, length_blocksWith, hcount, hexec, if_pos rfl]
    rw [exportLists, exportLists, getD_concat, getD_concat]
    by_cases hk : k = ((blocksWith Step.exports st.plan.steps).map Prod.snd).length
    · rw [if_pos hk, if_pos hk, if_pos (by omega)]
    · rw [if_neg hk, if_neg hk, if_neg (by omega), List.append_nil]
  | inr hlast =>
    obtain ⟨hexec, s, hlast, rfl⟩ := hlast
    have hnone : st.pendingExport = [] := by
      refine not_imp_comm.mp hst fun hboth => ?_
      rw [hexec] at hboth
      cases hboth.1
    have hsplit : st.plan.steps = st.plan.steps.dropLast ++ [.localBlock s] :=
      (List.dropLast_append_getLast? _ hlast).symm
    have hlength : ((blocksWith Step.exports st.plan.steps.dropLast).map Prod.snd).length + 1 =
        n := by
      rw [hexec, hsplit, blocksOf_append, List.length_append] at hcount
      rw [List.length_map, length_blocksWith, hcount]
      rfl
    have hold : st.exportLists =
        (blocksWith Step.exports st.plan.steps.dropLast).map Prod.snd ++ [s.exports] ++ [[]] := by
      rw [exportLists, hnone]
      conv_lhs => rw [hsplit]
      rw [blocksWith_append, List.map_append]
      rfl
    have hnew : (st.withSteps (st.plan.steps.dropLast ++ [.localBlock { s with
          exports := s.exports ++ vars }])).exportLists =
        (blocksWith Step.exports st.plan.steps.dropLast).map Prod.snd ++ [s.exports ++ vars] ++
          [[]] := by
      have hpending : (st.withSteps (st.plan.steps.dropLast ++ [.localBlock { s with
          exports := s.exports ++ vars }])).pendingExport = [] := hnone
      rw [exportLists, hpending]
      change (blocksWith Step.exports (st.plan.steps.dropLast ++ [.localBlock { s with
          exports := s.exports ++ vars }])).map Prod.snd ++ [[]] = _
      rw [blocksWith_append, List.map_append]
      rfl
    rw [hold, hnew, getD_concat_default, getD_concat_default, getD_concat, getD_concat]
    by_cases hk : k = ((blocksWith Step.exports st.plan.steps.dropLast).map Prod.snd).length
    · rw [if_pos hk, if_pos hk, if_pos (by omega)]
    · rw [if_neg hk, if_neg hk, if_neg (by omega), List.append_nil]

/-- One line gives its exports to the last block that has begun, and changes no other. -/
theorem exports_scanLine {seen : List (List Char × Nat)} {numbered : List Char × Nat}
    (hrun : seen.foldlM scanLine .new = .ok st)
    (hexports : ∀ k, st.exportLists[k]?.getD [] = exportsFor (readLines ⟨[]⟩ seen) k)
    (h : st.scanLine numbered = .ok st') (k : Nat) :
    st'.exportLists[k]?.getD [] =
      exportsFor (readLines ⟨[]⟩ seen ++ [readLine st.heredocs numbered]) k := by
  have hst := captures_run hrun
  cases effect_scanLine h with
  | body hbody =>
    rw [readLine_text (.inl hbody), exportsFor_of_no_export rfl]
    exact hexports k
  | text hbody hdir =>
    rw [readLine_text (.inr hdir), exportsFor_of_no_export rfl]
    exact hexports k
  | @directive keyword payload _ hbody hdir heffect =>
    have hline := readLine_of_directive hbody hdir
    rw [hline]
    by_cases hkey : keyword = "export"
    · subst hkey
      rw [scanLine_of_readLine hline, applyDirective_export] at h
      obtain ⟨vars, hvars, -⟩ := declareExport_cases h
      have hread : (ScriptLine.directive "export" payload numbered.2).exports = vars := by
        rw [ScriptLine.exports, if_pos rfl, hvars]
        rfl
      rw [exportsFor_concat, hread, ← hexports k]
      exact exportLists_declareExport hst (blocksIn_of_run hrun) hvars h k
    · have hread : (ScriptLine.directive keyword payload numbered.2).exports = [] := if_neg hkey
      have hflush : st.beforeDirective keyword = st.flush := by rw [beforeDirective, if_neg hkey]
      rw [hflush] at heffect
      rw [exportsFor_of_no_export hread, exportLists, blocksWith_of_effect Step.exports heffect hkey,
        heffect.pendingExport hkey, ← hexports k, ← exportLists_flush hst]
      rfl

theorem exports_run {seen : List (List Char × Nat)} (h : seen.foldlM scanLine .new = .ok st)
    (k : Nat) : st.exportLists[k]?.getD [] = exportsFor (readLines ⟨[]⟩ seen) k := by
  refine read_run (P := fun script st => ∀ k, st.exportLists[k]?.getD [] = exportsFor script k)
    (fun k => ?_) (fun seen st numbered st' hrun hexports h => exports_scanLine hrun hexports h)
    seen st h k
  cases k with
  | zero => rfl
  | succ k => rfl

/-- The block of an accepted `@export` is a local one of the plan. -/
theorem local_of_declareExport {seen rest : List (List Char × Nat)} {final : State}
    {plan : ExecutionPlan} (hrun : seen.foldlM scanLine .new = .ok st)
    (h : declareExport st payload line = .ok st') (hrest : rest.foldlM scanLine st = .ok final)
    (hfinish : final.finish = .ok plan) :
    ∃ k text, blocksIn (readLines ⟨[]⟩ seen) = k + 1 ∧
      (blocksOf plan.steps)[k]? = some (none, text) := by
  have hnew : State.new.Holds [] := rfl
  obtain ⟨lines, hlines, -⟩ := allBlocks_run hnew hrun
  have hcount := blocksIn_of_run hrun
  have hplan := blocksOf_from hlines hrest hfinish
  obtain ⟨vars, -, hcases⟩ := declareExport_cases h
  cases hcases with
  | inl hpending =>
    obtain ⟨hexec, hmode, -⟩ := hpending
    have hplace : st.place = none := by rw [place, hmode]
    rw [hasExecutable_eq hlines] at hexec
    obtain ⟨text, more, hkept⟩ := keptBlocks_pending hexec (readLines st.heredocs rest)
    refine ⟨(blocksOf st.plan.steps).length, text, ?_, ?_⟩
    · rw [hcount, hasExecutable_eq hlines, hexec, if_pos rfl]
    · rw [hplan, hkept, List.getElem?_append_right (Nat.le_refl _), Nat.sub_self, hplace]
      rfl
  | inr hlast =>
    obtain ⟨hexec, s, hlast, -⟩ := hlast
    have hsplit : st.plan.steps = st.plan.steps.dropLast ++ [.localBlock s] :=
      (List.dropLast_append_getLast? _ hlast).symm
    have hblocks : blocksOf st.plan.steps =
        blocksOf st.plan.steps.dropLast ++ [(none, s.script.toList)] := by
      conv_lhs => rw [hsplit]
      rw [blocksOf_append]
      rfl
    refine ⟨(blocksOf st.plan.steps.dropLast).length, s.script.toList, ?_, ?_⟩
    · rw [hcount, hexec, hblocks, List.length_append]
      rfl
    · rw [hplan, hblocks, List.append_assoc, List.getElem?_append_right (Nat.le_refl _),
        Nat.sub_self]
      rfl

end Steps
end State

/-- Each block has the exports of the lines between its begin and that of the next block, and a
block on a remote host has none: the last block that has begun in front of an `@export` is a local
one. -/
theorem parseScript_exports (input : String) (plan : ExecutionPlan)
    (h : parseScript input = .ok plan) :
    blocksWith Step.exports plan.steps =
        (keptSegments input).zipIdx.map
          (fun s => (s.1.block, exportsFor (scriptLines input) s.2)) ∧
      ∀ before payload line after,
        scriptLines input = before ++ .directive "export" payload line :: after →
        ∃ k text vars, blocksIn before = k + 1 ∧ (blocksOf plan.steps)[k]? = some (none, text) ∧
          parseExport payload line = .ok vars ∧ vars ≠ [] := by
  obtain ⟨final, hrun, hfinish⟩ := bind_eq_ok.mp h
  refine ⟨blocksWith_eq Step.exports (blocksOf_parse h) fun k b hb => ?_, ?_⟩
  · have hmap : ((blocksWith Step.exports final.flush.plan.steps).map Prod.snd)[k]? =
        some b.2 := by
      rw [List.getElem?_map, ← finish_ok hfinish, hb]
      rfl
    have hlist : final.flush.exportLists[k]?.getD [] = b.2 := by
      rw [exportLists, List.getElem?_append_left (List.getElem?_eq_some_iff.mp hmap).1, hmap,
        Option.getD_some]
    rw [← hlist, exportLists_flush (captures_run hrun)]
    exact exports_run hrun k
  · intro before payload line after hsplit
    obtain ⟨seen, numbered, rest, mid, next, -, hseen, hbefore, hline, hstep, hrest⟩ :=
      split_of_run hrun hsplit
    have hnext : declareExport mid payload line = .ok next := by
      rw [← applyDirective_export, ← scanLine_of_readLine hline.symm, hstep]
    obtain ⟨vars, hvars, -⟩ := declareExport_cases hnext
    have hfrom : (numbered :: rest).foldlM scanLine mid = .ok final := by
      rw [List.foldlM_cons, hstep]
      exact hrest
    obtain ⟨k, text, hk, hblock⟩ := local_of_declareExport hseen hnext hfrom hfinish
    have hread : before = readLines ⟨[]⟩ seen := hbefore
    exact ⟨k, text, vars, hread ▸ hk, hblock, hvars, parseExport_ne_nil hvars⟩

/-- An export behind a block that an option has closed, and one inside the block behind it. -/
def exportingScript : String :=
  "A=1\n# @name second\n# @export A\nB=2\n# @export B\necho \"$B\"\n"

theorem parseScript_exports_both : ∃ plan, parseScript exportingScript = .ok plan ∧
    blocksWith Step.exports plan.steps =
        (keptSegments exportingScript).zipIdx.map
          (fun s => (s.1.block, exportsFor (scriptLines exportingScript) s.2)) ∧
      ∀ before payload line after,
        scriptLines exportingScript = before ++ .directive "export" payload line :: after →
        ∃ k text vars, blocksIn before = k + 1 ∧ (blocksOf plan.steps)[k]? = some (none, text) ∧
          parseExport payload line = .ok vars ∧ vars ≠ [] := by
  have hok : (parseScript exportingScript).toOption.isSome = true := by decide +kernel
  cases h : parseScript exportingScript with
  | error e =>
    rw [h] at hok
    cases hok
  | ok plan => exact ⟨plan, rfl, parseScript_exports exportingScript plan h⟩

end Shellflow
