import Shellflow.Lib.Str

/-! The results file of a step that goes through a list: one record for each item, a summary line
for each record, and a status that any failed record makes 1. -/
namespace Shellflow.Results

def record (verdict text : String) : String := verdict ++ "\t" ++ text

/-- `cut -f`: a line without a tab is printed whole. -/
def cutField (n : Nat) (line : String) : String :=
  let fields := Str.splitChar line '\t'
  if fields.length = 1 then line else fields.getD (n - 1) ""

def padRight (width : Nat) (text : String) : String :=
  text ++ String.ofList (List.replicate (width - text.length) ' ')

def summaryLine (width : Nat) (verdict name : String) : String :=
  "  " ++ padRight width verdict ++ " " ++ name

/-- The lines the summary loop prints. -/
def summary (width : Nat) (records : List String) : List String :=
  (records.filter fun line => line != "").map fun line =>
    summaryLine width (cutField 1 line) (cutField 2 line)

/-- `grep -q '^FAIL'` decides the status. -/
def exitStatus (records : List String) : Nat :=
  if records.any fun line => Str.startsWith line "FAIL" then 1 else 0

/-- A name as the summary shows it. -/
def shown (name : String) : String := String.ofList (name.toList.takeWhile (· != '\t'))

section Records
variable {verdict : String}

theorem splitChar_record (text : String) (hverdict : '\t' ∉ verdict.toList) :
    ∃ rest, Str.splitChar (record verdict text) '\t' = verdict :: shown text :: rest := by
  have hlist : (record verdict text).toList = verdict.toList ++ '\t' :: text.toList := by
    simp [record]
  obtain ⟨rest, hrest⟩ := Str.splitCharFrom_eq_cons '\t' [] text.toList
  refine ⟨rest.map String.ofList, ?_⟩
  rw [Str.splitChar, hlist, Str.splitCharFrom_append, Str.splitCharFrom_of_notMem [] hverdict, hrest]
  simp [shown]

theorem cutField_record (text : String) (hverdict : '\t' ∉ verdict.toList) :
    cutField 1 (record verdict text) = verdict ∧
      cutField 2 (record verdict text) = shown text := by
  obtain ⟨rest, hrest⟩ := splitChar_record text hverdict
  simp [cutField, hrest]

theorem record_ne_empty (verdict text : String) : record verdict text ≠ "" := by
  intro h
  have hlen := congrArg (fun s => s.toList.length) h
  simp [record] at hlen

/-- Each record becomes one line, in order. -/
theorem summary_map {ι : Type} (width : Nat) (items : List ι) (verdict text : ι → String)
    (hverdict : ∀ i ∈ items, '\t' ∉ (verdict i).toList) :
    summary width (items.map fun i => record (verdict i) (text i)) =
      items.map fun i => summaryLine width (verdict i) (shown (text i)) := by
  induction items with
  | nil => rfl
  | cons i items ih =>
    rw [List.forall_mem_cons] at hverdict
    obtain ⟨hfirst, hsecond⟩ := cutField_record (text i) hverdict.1
    have hrest := ih hverdict.2
    simp only [summary] at hrest ⊢
    rw [List.map_cons, List.filter_cons_of_pos (by simpa using record_ne_empty _ _), List.map_cons,
      List.map_cons, hfirst, hsecond, hrest]

theorem exitStatus_eq_zero {records : List String} :
    exitStatus records = 0 ↔ ∀ line ∈ records, Str.startsWith line "FAIL" = false := by
  simp [exitStatus]

end Records

end Shellflow.Results
