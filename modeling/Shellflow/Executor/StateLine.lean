import Shellflow.Executor.HelperFallback

/-! The line in which the helper of a target reports a unit, and what the controller reads in it. -/
namespace Shellflow.UnitSteps

def statePrefix : String := "SFW"

/-- The characters that separate fields and lines. -/
def separators : List Char := ['\t', '\n', '\r']

/-- `s.replace(['\t', '\n', '\r'], " ")` -/
def clean (s : String) : String :=
  String.ofList (s.toList.map fun c => if c ∈ separators then ' ' else c)

def stateLine (state : UnitState) : String :=
  statePrefix ++ "\t" ++ clean state.unitType ++ "\t" ++ clean state.active ++ "\t" ++
    clean state.sub ++ "\t" ++ clean state.result ++ "\t" ++ clean state.status

/-- A missing field is empty. -/
def parseStateLine (line : String) : Option UnitState :=
  match Str.stripPrefix line statePrefix with
  | none => none
  | some rest =>
    match Str.stripPrefix rest "\t" with
    | none => none
    | some rest =>
      let parts := Str.splitChar rest '\t'
      some ⟨parts.getD 0 "", parts.getD 1 "", parts.getD 2 "", parts.getD 3 "", parts.getD 4 ""⟩

def waitBits (state : UnitState) : List String :=
  (if state.unitType ≠ "" then ["type=" ++ state.unitType] else []) ++
    (if state.active ≠ "" then ["active=" ++ state.active] else []) ++
    (if state.sub ≠ "" then ["sub=" ++ state.sub] else []) ++
    (if state.result ≠ "" then ["result=" ++ state.result] else [])

def waitText (unit : String) (state : UnitState) : String :=
  if state.status = "" then "waiting " ++ unit ++ ": " ++ Str.join " " (waitBits state)
  else "waiting " ++ unit ++ ": " ++ state.status

/-- The fallback of the script prints a single word. -/
def waitCollector (unit line : String) : Option String :=
  match parseStateLine line with
  | some state => some (waitText unit state)
  | none =>
    match Str.stripPrefix line statePrefix with
    | none => none
    | some rest =>
      let word := Str.trim rest
      if word = "" then none else some ("waiting " ++ unit ++ ": " ++ word)

section RoundTrip

def UnitState.cleaned (state : UnitState) : UnitState where
  unitType := clean state.unitType
  active := clean state.active
  sub := clean state.sub
  result := clean state.result
  status := clean state.status

def Separated (s : String) : Prop := ∃ c ∈ s.toList, c ∈ separators

/-- No field holds a separator. -/
structure UnitState.OneLine (state : UnitState) : Prop where
  unitType : ¬ Separated state.unitType
  active : ¬ Separated state.active
  sub : ¬ Separated state.sub
  result : ¬ Separated state.result
  status : ¬ Separated state.status

theorem not_separated_clean (s : String) : ¬ Separated (clean s) := by
  rintro ⟨c, hc, hsep⟩
  rw [clean, String.toList_ofList, List.mem_map] at hc
  obtain ⟨d, -, hd⟩ := hc
  by_cases hmem : d ∈ separators
  · rw [if_pos hmem] at hd
    exact absurd (hd ▸ hsep) (by decide)
  · rw [if_neg hmem] at hd
    exact hmem (hd ▸ hsep)

theorem clean_eq_self {s : String} (h : ¬ Separated s) : clean s = s := by
  have hmap : s.toList.map (fun c => if c ∈ separators then ' ' else c) = s.toList :=
    (List.map_congr_left fun c hc => if_neg fun hsep => h ⟨c, hc, hsep⟩).trans (List.map_id _)
  rw [clean, hmap, String.ofList_toList]

theorem UnitState.OneLine.cleaned_eq {state : UnitState} (h : state.OneLine) : state.cleaned = state := by
  rw [UnitState.cleaned, clean_eq_self h.unitType, clean_eq_self h.active, clean_eq_self h.sub,
    clean_eq_self h.result, clean_eq_self h.status]

/-- The fields of the line. -/
def stateFields (state : UnitState) : List (List Char) :=
  [(clean state.unitType).toList, (clean state.active).toList, (clean state.sub).toList,
    (clean state.result).toList, (clean state.status).toList]

theorem stateLine_toList (state : UnitState) :
    (stateLine state).toList = ['S', 'F', 'W', '\t'] ++ ['\t'].intercalate (stateFields state) := by
  have hprefix : statePrefix.toList = ['S', 'F', 'W'] := by decide
  have htab : "\t".toList = ['\t'] := by decide
  simp only [stateLine, String.toList_append, hprefix, htab, stateFields, List.intercalate_cons_cons]
  simp [List.intercalate]

theorem count_separator {c : Char} (hc : c ∈ separators) (s : String) : (clean s).toList.count c = 0 :=
  List.count_eq_zero.mpr fun hmem => not_separated_clean s ⟨c, hmem, hc⟩

theorem count_tab (state : UnitState) : (stateLine state).toList.count '\t' = 5 := by
  have hfield := count_separator (c := '\t') (by decide)
  rw [stateLine_toList]
  simp [stateFields, List.intercalate, hfield]

theorem notMem_stateLine {c : Char} (hc : c ∈ separators) (htab : c ≠ '\t') (state : UnitState) :
    c ∉ (stateLine state).toList := by
  have hfront : c ∉ ['S', 'F', 'W', '\t'] := by
    rintro hmem
    simp only [separators, List.mem_cons, List.not_mem_nil, or_false] at hc hmem
    rcases hc with rfl | rfl | rfl <;> simp at hmem htab
  rw [stateLine_toList, List.mem_append, not_or]
  refine ⟨hfront, List.count_eq_zero.mp ?_⟩
  simp [stateFields, List.intercalate, count_separator hc, Ne.symm htab]

theorem parseStateLine_stateLine (state : UnitState) :
    parseStateLine (stateLine state) = some state.cleaned := by
  have hline : stateLine state =
      statePrefix ++ ("\t" ++ String.ofList (['\t'].intercalate (stateFields state))) := by
    have hprefix : statePrefix.toList = ['S', 'F', 'W'] := by decide
    have htab : "\t".toList = ['\t'] := by decide
    rw [← String.toList_inj, stateLine_toList, String.toList_append, String.toList_append, hprefix, htab,
      String.toList_ofList]
    rfl
  have hfields : ∀ part ∈ stateFields state, '\t' ∉ part := by
    have hclean : ∀ s : String, '\t' ∉ (clean s).toList := fun s hmem =>
      not_separated_clean s ⟨'\t', hmem, by decide⟩
    simp only [stateFields, List.forall_mem_cons]
    exact ⟨hclean _, hclean _, hclean _, hclean _, hclean _, fun _ h => absurd h List.not_mem_nil⟩
  have hparts : Str.splitChar (String.ofList (['\t'].intercalate (stateFields state))) '\t' =
      [clean state.unitType, clean state.active, clean state.sub, clean state.result,
        clean state.status] := by
    have hne : stateFields state ≠ [] := List.cons_ne_nil _ _
    rw [Str.splitChar, String.toList_ofList, Str.splitCharFrom_intercalate hne hfields]
    simp [stateFields]
  rw [parseStateLine, hline, Str.stripPrefix_append]
  dsimp only
  rw [Str.stripPrefix_append]
  dsimp only
  rw [hparts]
  rfl

/-- State lines round-trip: five tabs and no line break whatever the fields hold, and what is read and
shown is the state with its separators flattened. -/
theorem stateLine_roundTrip (state : UnitState) :
    (stateLine state).toList.count '\t' = 5 ∧
      '\n' ∉ (stateLine state).toList ∧ '\r' ∉ (stateLine state).toList ∧
      Str.lines (stateLine state ++ "\n") = [stateLine state] ∧
      parseStateLine (stateLine state) = some state.cleaned ∧
      (∀ unit, waitCollector unit (stateLine state) = some (waitText unit state.cleaned)) ∧
      (state.OneLine → state.cleaned = state) := by
  have hnewline := notMem_stateLine (c := '\n') (by decide) (by decide) state
  have hreturn := notMem_stateLine (c := '\r') (by decide) (by decide) state
  refine ⟨count_tab state, hnewline, hreturn, ?_, parseStateLine_stateLine state, fun unit => ?_,
    UnitState.OneLine.cleaned_eq⟩
  · have hjoin : stateLine state ++ "\n" = String.join ([stateLine state].map (· ++ "\n")) := by
      simp [String.join]
    rw [hjoin]
    refine Str.lines_join fun line hmem => ?_
    rw [List.mem_singleton.mp hmem]
    exact ⟨hnewline, fun hlast => hreturn (List.mem_of_getLast? hlast)⟩
  · rw [waitCollector, parseStateLine_stateLine]

end RoundTrip

end Shellflow.UnitSteps
