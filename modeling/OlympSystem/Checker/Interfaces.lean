/-
  OlympSystem.Checker.Interfaces — what `CheckerService` is given and what it gives
  (`ICheckerService.cs`, `ICompilatorConfiguration.cs`, `ICheckerTest.cs`,
  `ISimpleChecker.cs`).

  An interface is the structure of the members the service uses. `parseInfo` gives the
  display name and the description: every configuration puts itself into the
  `CompilatorInfo` it returns.
-/

import OlympSystem.Checker.ResultStatus
import OlympSystem.Checker.Runner

namespace OlympSystem.Checker

structure CompilatorConfiguration where
  name : String
  language : String
  configName : String
  useSlowTimeLimit : Bool
  memoryOverheadMb : Int
  getSourceFileName : String → String
  getCompileCommand : String → String
  runCommand : String → Int → String
  getVersionCommand : String
  parseInfo : String → Except Exn (String × Option String)

structure CompilatorInfo where
  configuration : CompilatorConfiguration
  displayName : String
  description : Option String
  error : Option String

structure SimpleChecker where
  id : Int
  check : String → String → String → Except Exn CheckerResultStatus

/-- `ICheckerTest`: a self-test. -/
structure SelfTest where
  name : String
  language : String
  compilatorNames : List String
  source : String
  input : String
  output : String
  timeLimit : TimeSpan
  memoryLimitMB : Int
  checker : SimpleChecker
  expectedResult : CheckerResultStatus

structure CheckTest where
  number : Int
  input : Bytes
  output : Bytes
  score : Option Int
  deriving DecidableEq, Repr

structure CheckRequest where
  name : String
  source : String
  compilator : CompilatorInfo
  checkerId : Int
  tests : List CheckTest
  timeLimit : TimeSpan
  memoryLimitMb : Int
  allTests : Bool

structure CheckerResult where
  statusCode : Int
  log : String
  score : Option Int
  testResults : Option String
  deriving DecidableEq, Repr

structure CheckerTestResult where
  name : String
  compilator : CompilatorInfo
  expectedResult : CheckerResultStatus
  result : Option CheckerResultStatus
  output : String

inductive CheckerSelfTestingStatus where
  | unknown
  | inProcess
  | failed
  | success
  deriving DecidableEq, Repr

end OlympSystem.Checker
