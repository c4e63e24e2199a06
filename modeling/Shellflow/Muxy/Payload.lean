import Shellflow.Lib.Str

/-! The payload of a step travels as a file; only a short line that names it is typed. -/
namespace Shellflow

def payloadRelPath (runId stepId : String) : String :=
  s!".shellflow/steps/{runId}/{stepId}.sh"

def runDirRelPath (runId : String) : String := s!".shellflow/steps/{runId}"

def bootstrapLine (runId stepId : String) : String :=
  s!"chmod 700 ~/.shellflow ~/.shellflow/steps ~/.shellflow/steps/{runId}; " ++
    s!"exec bash ~/.shellflow/steps/{runId}/{stepId}.sh\r"

def beginMarker (runId stepId : String) : String := s!"@@shellflow:begin:{runId}/{stepId}@@"

theorem toList_beginMarker (runId stepId : String) :
    (beginMarker runId stepId).toList =
      "@@shellflow:begin:".toList ++ runId.toList ++ "/".toList ++ stepId.toList ++ "@@".toList := by
  unfold beginMarker
  simp only [String.toList_append]
  rfl

theorem beginMarker_ne_empty (runId stepId : String) : beginMarker runId stepId ≠ "" := by
  intro hempty
  have hchars := (toList_beginMarker runId stepId).symm.trans (congrArg String.toList hempty)
  exact absurd (List.append_eq_nil_iff.mp hchars).2 (by decide)

/-- The guard's own shell answers `exit 42`; the trap turns a 42 of the block into a 1. -/
def foldedGuard (guard : String) : String :=
  "trap 'rc=$?; if [ \"$rc\" = 42 ]; then exit 1; fi' EXIT\n" ++
    s!"if ! ( set +u; {guard} ) >/dev/null 2>&1; then trap - EXIT; exit 42; fi\n"

def buildPayload (script : String) (guard : Option String) (trace : Bool)
    (runId stepId : String) : String :=
  "set -eu\n" ++ (guard.map foldedGuard).getD "" ++ (if trace then "set -x\n" else "") ++
    s!"printf '%s\\n' '{beginMarker runId stepId}'\n" ++ script ++
    (if Str.endsWith script "\n" then "" else "\n")

end Shellflow
