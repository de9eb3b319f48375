/-
  OlympSystem.Site.RunnerMessages — the messages between the site and a runner
  (`runner.proto`), and how `RunnerService.Run` writes one and reads the other.

  A message field that is itself a message may be missing; reading through a missing
  one throws. The conversions of times belong to the protobuf library: `Durations` says what
  the code relies on.
-/

import OlympSystem.Checker.Runner

namespace OlympSystem.Site

open OlympSystem.Checker

structure Duration where
  seconds : Int
  nanos : Int
  deriving DecidableEq, Repr

/-- A time that a `Duration` can hold: at most 10000 years. -/
def IsDuration (t : TimeSpan) : Prop :=
  -315576000000 ≤ t.tdiv ticksPerSecond ∧ t.tdiv ticksPerSecond ≤ 315576000000

instance (t : TimeSpan) : Decidable (IsDuration t) := inferInstanceAs (Decidable (_ ∧ _))

/-- `Duration.FromTimeSpan` and `Duration.ToTimeSpan` of the protobuf library: a time in their
    range comes back as it was, another is refused when it is read. -/
class Durations where
  fromTimeSpan : TimeSpan → Duration
  toTimeSpan : Duration → Except Exn TimeSpan
  roundTrip : ∀ t, IsDuration t → toTimeSpan (fromTimeSpan t) = .ok t
  outOfRange : ∀ t, ¬IsDuration t →
    toTimeSpan (fromTimeSpan t) = .error (.invalidOperation "Duration was not a valid normalized duration")

structure CommandResources where
  userTime : Option Duration
  totalTime : Option Duration
  memoryBytes : Nat
  stdoutBytes : Nat
  stderrBytes : Nat
  deriving DecidableEq, Repr

structure CommandFile where
  filename : String
  content : Bytes
  deriving DecidableEq, Repr

structure CommandRequest where
  command : String
  stdin : Bytes
  clearWorkdir : Bool
  readOnly : Bool
  envFiles : List String
  files : List CommandFile
  resourceLimits : Option CommandResources
  deriving DecidableEq, Repr

/-- An open enumeration: a runner may send a number that has no name. -/
inductive CommandStatus where
  | unspecified
  | completed
  | error
  | userTimeLimit
  | totalTimeLimit
  | memoryLimit
  | stdoutLimit
  | stderrLimit
  | unknown (code : Int)
  deriving DecidableEq, Repr

structure CommandResponse where
  status : CommandStatus
  exitCode : Int
  stdout : Bytes
  stderr : Bytes
  resourceConsumption : Option CommandResources
  deriving DecidableEq, Repr

variable [Durations]

def toCommandRequest (task : RunnerTask) : CommandRequest where
  command := task.command
  stdin := task.stdin
  clearWorkdir := task.clearWorkdir
  readOnly := task.readOnly
  envFiles := task.envFiles
  files := task.files.map fun file => ⟨file.filename, file.content⟩
  resourceLimits := some
    { userTime := some (Durations.fromTimeSpan task.resourceLimits.userTime)
      totalTime := some (Durations.fromTimeSpan task.resourceLimits.totalTime)
      memoryBytes := task.resourceLimits.memory
      stdoutBytes := task.resourceLimits.stdout
      stderrBytes := task.resourceLimits.stderr }

def toRunnerStatus : CommandStatus → RunnerStatus
  | .completed => .completed
  | .error => .error
  | .userTimeLimit => .userTimeLimit
  | .totalTimeLimit => .totalTimeLimit
  | .memoryLimit => .memoryLimit
  | .stdoutLimit => .stdoutLimit
  | .stderrLimit => .stderrLimit
  | _ => .unspecified

/-- `message.Field.ToTimeSpan()` of a field that may be missing. -/
def readDuration (d : Option Duration) : Except Exn TimeSpan :=
  match d with
  | some d => Durations.toTimeSpan d
  | none => .error .nullReference

def toRunnerResult (response : CommandResponse) : Except Exn RunnerResult :=
  match response.resourceConsumption with
  | none => .error .nullReference
  | some consumption => do
    let userTime ← readDuration consumption.userTime
    let totalTime ← readDuration consumption.totalTime
    return ⟨toRunnerStatus response.status, response.exitCode, response.stdout, response.stderr,
      ⟨userTime, totalTime, consumption.memoryBytes, consumption.stdoutBytes, consumption.stderrBytes⟩⟩

end OlympSystem.Site
