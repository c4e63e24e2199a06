import Shellflow.AnswerReader
import Shellflow.Secrets.Edit
import Shellflow.Host.Shred
import Shellflow.Dsl.Inherited
import Shellflow.Executor.StateLine
import Shellflow.Executor.StepEnv
import Shellflow.Executor.PortVerdict
import Shellflow.Executor.AssertRendered
import Shellflow.Muxy.GapFill
import Shellflow.Muxy.Provenance
import Shellflow.Muxy.Reconnect
import Shellflow.Muxy.StillRunning
import Shellflow.Mask.CrossLine
import Shellflow.Dsl.NamedSteps
import Shellflow.Dsl.Resolve
import Shellflow.Dsl.Conserve
import Shellflow.CredEnv.Fingerprint
import Shellflow.Executor.WorkdirGuard
import Shellflow.Executor.ExecutePlan
import Shellflow.Executor.FoldedGuard
import Shellflow.Executor.Grouped
import Shellflow.Executor.HealthVerdict
import Shellflow.Executor.CheckBudget
import Shellflow.Executor.LocalCopy
import Shellflow.Host.Credstore
import Shellflow.CredEnv.Renderers
import Shellflow.Host.Backup
import Shellflow.CredEnv.Atomic
import Shellflow.Executor.HelperVerdict
import Shellflow.Muxy.Retired
import Shellflow.Muxy.Departures
import Shellflow.Executor.ProbeCache
import Shellflow.Executor.MuxyAttempt
import Shellflow.Dsl.Bodies
import Shellflow.Dsl.HeredocScan
import Shellflow.RoundTrip
import Shellflow.Host.NoLeak
import Shellflow.Executor.HelperWords
import Shellflow.Service.Status
import Shellflow.Executor.Stream
import Shellflow.Executor.Image
import Shellflow.Executor.Toolchain
import Shellflow.Service.Check
import Shellflow.Executor.HelperFallback
import Shellflow.Executor.Placement
import Shellflow.Executor.CopyTrees
import Shellflow.Service.Staging
import Shellflow.Lib.UnitFile
import Shellflow.Lib.UnitWords
import Shellflow.Service.UnitRender
import Shellflow.Lib.Leftmost
import Shellflow.Executor.ReleaseVersion
import Shellflow.Executor.ReleaseInstall
import Shellflow.Executor.Sink
import Shellflow.Executor.Capture
import Shellflow.Executor.LocalBlock
import Shellflow.Mask.Tokens
import Shellflow.Mask.Overlap
import Shellflow.Mask.ByteRanges
import Shellflow.Dsl.Substitution
import Shellflow.Executor.Excused
import Shellflow.CredEnv.Rendered
import Shellflow.Executor.Captured
import Shellflow.Executor.Threshold
import Shellflow.Dsl.QuotedWords
import Shellflow.EnvHeader
import Shellflow.Dsl.SshArgs
import Shellflow.Executor.EnvPrecedence
import Shellflow.Dsl.Hosts
import Shellflow.Dsl.Guards
import Shellflow.Dsl.Exports
import Shellflow.Diffutil
import Shellflow.Service.Integrity
import Shellflow.Secrets.EnvRendered
import Shellflow.Executor.Deadlines
import Shellflow.Audit.CaseOffsets
import Shellflow.Service.Sequential
import Shellflow.Service.SharedDirs
import Shellflow.Service.WantedDropins
import Shellflow.Service.BackupOrder
import Shellflow.Executor.AssertReferences
import Shellflow.Service.DropinAgree
import Shellflow.Executor.BuildRollback
import Shellflow.Executor.InstallFallback
import Shellflow.Executor.ServiceFallback
import Shellflow.Service.Fleet
import Shellflow.Dsl.Accepted
import Shellflow.Executor.HostTasks
import Shellflow.Executor.MuxyEnsure
import Shellflow.Host.Supervisor
import Shellflow.Executor.CopyGroups
import Shellflow.Executor.HelperCache
