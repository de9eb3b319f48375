/-
  OlympSystem.Checker.Runner — what a runner is asked and what it answers
  (`IRunnerService.cs`). A `TimeSpan` is a number of ticks of 100 ns.
-/

import OlympSystem.Exceptions
import OlympSystem.Lib.Text

namespace OlympSystem.Checker

abbrev TimeSpan := Int

def ticksPerSecond : Int := 10000000

def TimeSpan.fromSeconds (n : Int) : TimeSpan := n * ticksPerSecond

/-- `ToString()`: `[-][d.]hh:mm:ss[.fffffff]`. -/
def TimeSpan.text (t : TimeSpan) : String :=
  let ticks := t.natAbs
  let seconds := ticks / 10000000
  let days := seconds / 86400
  let fraction := ticks % 10000000
  (if t < 0 then "-" else "") ++ (if days = 0 then "" else toString days ++ ".") ++
    Lib.Text.padded 2 (seconds / 3600 % 24) ++ ":" ++ Lib.Text.padded 2 (seconds / 60 % 60) ++ ":" ++
    Lib.Text.padded 2 (seconds % 60) ++ (if fraction = 0 then "" else "." ++ Lib.Text.padded 7 fraction)

example : TimeSpan.text (TimeSpan.fromSeconds 90061 + 5) = "1.01:01:01.0000005" := by decide

abbrev Bytes := List UInt8

structure RunnerFile where
  filename : String
  content : Bytes
  deriving DecidableEq, Repr

structure RunnerResources where
  userTime : TimeSpan
  totalTime : TimeSpan
  memory : Nat
  stdout : Nat
  stderr : Nat
  deriving DecidableEq, Repr

structure RunnerTask where
  command : String
  stdin : Bytes
  clearWorkdir : Bool
  readOnly : Bool
  envFiles : List String
  files : List RunnerFile
  resourceLimits : RunnerResources
  deriving DecidableEq, Repr

inductive RunnerStatus where
  | unspecified
  | completed
  | error
  | userTimeLimit
  | totalTimeLimit
  | memoryLimit
  | stdoutLimit
  | stderrLimit
  deriving DecidableEq, Repr

def RunnerStatus.name : RunnerStatus → String
  | .unspecified => "Unspecified"
  | .completed => "Completed"
  | .error => "Error"
  | .userTimeLimit => "UserTimeLimit"
  | .totalTimeLimit => "TotalTimeLimit"
  | .memoryLimit => "MemoryLimit"
  | .stdoutLimit => "StdoutLimit"
  | .stderrLimit => "StderrLimit"

structure RunnerResult where
  status : RunnerStatus
  exitCode : Int
  stdout : Bytes
  stderr : Bytes
  resourceConsumption : RunnerResources
  deriving DecidableEq, Repr

end OlympSystem.Checker
