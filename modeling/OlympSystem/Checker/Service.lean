/-
  OlympSystem.Checker.Service — `CheckerService.cs`.

  Each public method is a `Prog` over the service's mutable fields, the semaphore and the
  runner: `loadCompilators`, `check`, `run`, `runSelfTests`. What a method asks its
  platform for is a parameter: `Platform` is the line end of `AppendLine` and the texts of
  exceptions, `elapsed` what the stopwatch of `Check` shows at the end, `guid` the
  `Guid.NewGuid()` of `Run`.

  The file's raw strings have LF line ends.
-/

import OlympSystem.Checker.Interfaces
import OlympSystem.Lib.Checked
import OlympSystem.Lib.Program
import OlympSystem.Lib.Query
import OlympSystem.Lib.Utf8

namespace OlympSystem.Checker

open Lib.Program Lib.Checked

structure Platform where
  newLine : String
  /-- `ex.Message`. -/
  message : Exn → String
  /-- `ex.ToString()`. -/
  text : Exn → String

structure RunnerInfo where
  id : String
  name : String
  supportedEnvs : List String

structure CheckerService where
  runner : RunnerInfo
  compilatorConfigurations : List CompilatorConfiguration
  checkerTests : List SelfTest
  simpleCheckers : List SimpleChecker
  /-- `ToDictionary` throws on two checkers of one id. -/
  simpleCheckers_ids : (simpleCheckers.map SimpleChecker.id).Nodup

structure Fields where
  compilators : Option (List CompilatorInfo)
  versionResults : List CheckerTestResult
  checkerTestResults : List CheckerTestResult
  selfTestingStatus : CheckerSelfTestingStatus

abbrev Task (α : Type) := Prog Fields Exn RunnerTask RunnerResult α

namespace CheckerService

variable (svc : CheckerService) (platform : Platform)

def supports (configuration : CompilatorConfiguration) : Bool :=
  svc.runner.supportedEnvs.contains configuration.configName

def configurations : List CompilatorConfiguration := svc.compilatorConfigurations.filter svc.supports

def findChecker (id : Int) : Option SimpleChecker := svc.simpleCheckers.find? (·.id == id)

/-! ## Texts -/

/-- The lines of a raw string. -/
def raw (lines : List String) : String := String.intercalate "\n" lines

def getTruncatedString (memory : Bytes) (len : Nat) : String := Lib.Utf8.decode (memory.take len)

def encode (text : String) : Bytes := text.toUTF8.toList

def inMegabytes (memory : Nat) : String := toString (memory / 1024 / 1024) ++ " MB"

def getCommandLog (command : String) (result : RunnerResult) : String :=
  raw ["command: " ++ command,
    "status: " ++ result.status.name,
    "user time: " ++ result.resourceConsumption.userTime.text,
    "total time: " ++ result.resourceConsumption.totalTime.text,
    "peak memory: " ++ inMegabytes result.resourceConsumption.memory,
    "exit code: " ++ toString result.exitCode]

def getCompilationLog (command : String) (result : RunnerResult) : String :=
  raw ["Compilation:", getCommandLog command result, "compilator:", getTruncatedString result.stderr (100 * 1024)]

/-- The part of a log that `Run` and the self-tests share. -/
def executionLines (compilationLog : String) (result : RunnerResult) : List String :=
  [compilationLog, "", "Execution:",
    "status: " ++ result.status.name,
    "user time: " ++ result.resourceConsumption.userTime.text,
    "total time: " ++ result.resourceConsumption.totalTime.text,
    "peak memory: " ++ inMegabytes result.resourceConsumption.memory,
    "exit code: " ++ toString result.exitCode]

/-! ## Requests to the runner -/

def compilationResources : RunnerResources :=
  ⟨.fromSeconds 30, .fromSeconds 30, 768 * 1024 * 1024, 64 * 1024, 64 * 1024⟩

def compileTask (name : String) (configuration : CompilatorConfiguration) (source : String)
    (clearWorkdir : Bool) : RunnerTask where
  command := configuration.getCompileCommand name ++ " 1>&2"
  stdin := []
  clearWorkdir := clearWorkdir
  readOnly := false
  envFiles := [configuration.configName]
  files := [⟨configuration.getSourceFileName name, encode source⟩]
  resourceLimits := compilationResources

/-- `(uint)(memoryLimitMb + overhead) * 1024 * 1024`, in unchecked `uint`. -/
def memoryBytes (memoryLimitMb overhead : Int) : Nat :=
  ((memoryLimitMb + overhead) % 4294967296).toNat * 1024 * 1024 % 4294967296

def runTask (name : String) (configuration : CompilatorConfiguration) (input : Bytes) (timeLimit : TimeSpan)
    (memoryLimitMb : Int) : RunnerTask where
  command := configuration.runCommand name memoryLimitMb
  stdin := input
  clearWorkdir := false
  readOnly := true
  envFiles := [configuration.configName]
  files := []
  resourceLimits := ⟨timeLimit, timeLimit + .fromSeconds 5, memoryBytes memoryLimitMb configuration.memoryOverheadMb,
    1024 * 1024, 4096⟩

def versionTask (configuration : CompilatorConfiguration) : RunnerTask where
  command := configuration.getVersionCommand
  stdin := []
  clearWorkdir := false
  readOnly := false
  envFiles := [configuration.configName]
  files := []
  resourceLimits := compilationResources

def requestFor (configuration : CompilatorConfiguration) (task : RunnerTask) : Task RunnerResult :=
  if svc.supports configuration then Prog.request task
  else Prog.throw (.notSupported ("Runner " ++ svc.runner.name ++ " don't support config " ++ configuration.configName))

def compile (name : String) (configuration : CompilatorConfiguration) (source : String)
    (clearWorkdir : Bool) : Task RunnerResult :=
  svc.requestFor configuration (compileTask name configuration source clearWorkdir)

def runTest (name : String) (configuration : CompilatorConfiguration) (input : Bytes) (timeLimit : TimeSpan)
    (memoryLimitMb : Int) : Task RunnerResult :=
  svc.requestFor configuration (runTask name configuration input timeLimit memoryLimitMb)

/-- The verdict on an answer of the runner. -/
def testStatus (checker : SimpleChecker) (input output : Bytes) (result : RunnerResult) :
    Except Exn CheckerResultStatus :=
  match result.status with
  | .userTimeLimit => .ok .timeLimit
  | .totalTimeLimit => .ok .idlenessLimit
  | .memoryLimit => .ok .memoryLimit
  | .stdoutLimit => .ok .presentationError
  | .stderrLimit => .ok .presentationError
  | .error => .ok .runtimeError
  | .completed =>
    checker.check (Lib.Utf8.decode input) (Lib.Utf8.decode output) (Lib.Utf8.decode result.stdout)
  | .unspecified => .error (.general ("Runner unexpected result " ++ result.status.name))

def checkTest (name : String) (configuration : CompilatorConfiguration) (checker : SimpleChecker)
    (input output : Bytes) (timeLimit : TimeSpan) (memoryLimitMb : Int) :
    Task (CheckerResultStatus × RunnerResult) := do
  let result ← svc.runTest name configuration input timeLimit memoryLimitMb
  let status ← Prog.lift (testStatus checker input output result)
  return (status, result)

/-! ## `Check` -/

/-- The variables of the loop over the tests. -/
structure Progress where
  log : String
  testResults : List CheckerResultStatus
  statusCode : Int
  maxUserTime : TimeSpan
  maxTotalTime : TimeSpan
  maxPeakMemory : Nat

def appendLine (log text : String) : String := log ++ text ++ platform.newLine

def Progress.appendLine (acc : Progress) (text : String) : Progress :=
  { acc with log := CheckerService.appendLine platform acc.log text }

/-- What one attempt adds to the maxima and the log. -/
def Progress.attempted (acc : Progress) (status : CheckerResultStatus) (result : RunnerResult) : Progress :=
  { acc with
    maxUserTime := max acc.maxUserTime result.resourceConsumption.userTime
    maxTotalTime := max acc.maxTotalTime result.resourceConsumption.totalTime
    maxPeakMemory := max acc.maxPeakMemory result.resourceConsumption.memory
    log := CheckerService.appendLine platform acc.log (raw [
      "status: " ++ status.name,
      "user time: " ++ result.resourceConsumption.userTime.text,
      "total time: " ++ result.resourceConsumption.totalTime.text,
      "peak memory: " ++ inMegabytes result.resourceConsumption.memory,
      "exit code: " ++ toString result.exitCode]) }

def isResourceLimit (status : CheckerResultStatus) : Bool := status == .timeLimit || status == .memoryLimit

/-- From the label `test:` on: with `retries` left, a time or memory limit goes back to it. -/
def testAttempts (request : CheckRequest) (checker : SimpleChecker) (test : CheckTest) :
    (retries : Nat) → Progress → Task (CheckerResultStatus × RunnerResult × Progress)
  | retries, acc => do
    let (status, result) ← svc.checkTest request.name request.compilator.configuration checker test.input test.output
      request.timeLimit request.memoryLimitMb
    let acc := acc.attempted platform status result
    match retries with
    | 0 => return (status, result, acc)
    | retries + 1 =>
      if isResourceLimit status then testAttempts request checker test retries acc
      else return (status, result, acc)

/-- `++counter < 2` allows one retry. -/
def maxRetries : Nat := 1

def Progress.failed (acc : Progress) (test : CheckTest) (status : CheckerResultStatus) (result : RunnerResult) :
    Except Exn Progress :=
  let code := if acc.statusCode = 2 then makeStatusCode status (some test.number) else .ok acc.statusCode
  match code with
  | .error e => .error e
  | .ok statusCode =>
    .ok ({ acc with statusCode := statusCode }.appendLine platform
      (raw ["stdout:", getTruncatedString result.stdout 1024, "stderr:", getTruncatedString result.stderr 1024]))

def testLoop (request : CheckRequest) (checker : SimpleChecker) : List CheckTest → Progress → Task Progress
  | [], acc => return acc
  | test :: tests, acc => do
    let (status, result, acc) ← svc.testAttempts platform request checker test maxRetries
      (acc.appendLine platform (raw ["--------------", "Test " ++ toString test.number]))
    let acc := { acc with testResults := acc.testResults ++ [status] }
    if status = .accepted then testLoop request checker tests acc
    else do
      let acc ← Prog.lift (acc.failed platform test status result)
      if request.allTests then testLoop request checker tests acc else return acc

/-- `Sum()` of nullable integers: null adds nothing. -/
def sumScores (scores : List (Option Int)) : Option Int := sumInt32 (scores.map (·.getD 0))

def testScore (test : CheckTest) (res : CheckerResultStatus) : Option Int :=
  if res = .accepted then test.score else some 0

def testField (test : CheckTest) (res : CheckerResultStatus) : String :=
  if res = .accepted then toString (test.score.getD 0) else res.name

def checkHeader (request : CheckRequest) : String :=
  raw ["Runner: " ++ svc.runner.name ++ " (" ++ svc.runner.id ++ ")",
    "Compilator: " ++ request.compilator.displayName,
    "Configuration: " ++ request.compilator.configuration.name ++ " (" ++
      request.compilator.configuration.configName ++ ")",
    "Versions: " ++ request.compilator.description.getD ""]

def finishedLog (elapsed : TimeSpan) (acc : Progress) : String :=
  appendLine platform acc.log (raw ["--------------",
    "Max user time: " ++ acc.maxUserTime.text,
    "Max total time: " ++ acc.maxTotalTime.text,
    "Max peak memory: " ++ inMegabytes acc.maxPeakMemory,
    "Checking time " ++ elapsed.text])

def checkerResult (request : CheckRequest) (elapsed : TimeSpan) (acc : Progress) : Except Exn CheckerResult :=
  let log := finishedLog platform elapsed acc
  if request.tests.any (·.score.isSome) then
    match sumScores (request.tests.zipWith testScore acc.testResults) with
    | none => .error .overflow
    | some score =>
      .ok ⟨acc.statusCode, log, some score,
        some (String.intercalate ";" (request.tests.zipWith testField acc.testResults))⟩
  else .ok ⟨acc.statusCode, log, none, none⟩

def checkBody (request : CheckRequest) (elapsed : TimeSpan) : Task CheckerResult := do
  let compilator := request.compilator
  match compilator.error with
  | some error =>
    Prog.throw (.notSupported ("Compilator " ++ compilator.configuration.name ++ " is unavailable:\n" ++ error))
  | none => do
    let log := appendLine platform "" (svc.checkHeader request)
    let compileResult ← svc.compile request.name compilator.configuration request.source true
    let log := appendLine platform log (raw ["Compilation:",
      "user time: " ++ compileResult.resourceConsumption.userTime.text,
      "total time: " ++ compileResult.resourceConsumption.totalTime.text])
    if compileResult.status ≠ .completed then do
      let statusCode ← Prog.lift (makeStatusCode .compilationError none)
      return ⟨statusCode, appendLine platform log (getTruncatedString compileResult.stderr 1024), none, none⟩
    else
      match svc.findChecker request.checkerId with
      | none =>
        Prog.throw (.invalidOperation ("Checker with id " ++ toString request.checkerId ++ " not found"))
      | some checker => do
        let acc ← svc.testLoop platform request checker request.tests ⟨log, [], 2, 0, 0, 0⟩
        Prog.lift (checkerResult platform request elapsed acc)

def check (request : CheckRequest) (elapsed : TimeSpan) : Task CheckerResult := do
  Prog.waitSemaphore
  (svc.checkBody platform request elapsed).finallyRelease

/-! ## `Run` -/

def runBody (source : String) (configuration : CompilatorConfiguration) (input : String) (timeLimit : TimeSpan)
    (memoryLimitMb : Int) (guid : String) : Task String := do
  let compileResult ← svc.compile guid configuration source true
  let compilationLog := getCompilationLog (configuration.getCompileCommand guid) compileResult
  if compileResult.status ≠ .completed then return compilationLog
  else do
    let result ← svc.runTest guid configuration (encode input) timeLimit memoryLimitMb
    return raw (executionLines compilationLog result ++
      ["stdout:", getTruncatedString result.stdout 4096, "stderr:", getTruncatedString result.stderr 4096])

def run (source : String) (configuration : CompilatorConfiguration) (input : String) (timeLimit : TimeSpan)
    (memoryLimitMb : Int) (guid : String) : Task String := do
  Prog.waitSemaphore
  (svc.runBody source configuration input timeLimit memoryLimitMb guid).finallyRelease

/-! ## Self-tests -/

def getTests (configuration : CompilatorConfiguration) : List SelfTest :=
  svc.checkerTests.filter fun x => x.language == configuration.language &&
    (x.compilatorNames.length == 0 || x.compilatorNames.contains configuration.name)

def createTestResults (compilators : List CompilatorInfo) : List CheckerTestResult :=
  compilators.flatMap fun compilator =>
    let tests := svc.getTests compilator.configuration
    if tests.length = 0 then
      [⟨"SelfTests", compilator, .accepted, some .internalError,
        "No self-tests for compilator " ++ compilator.configuration.name ++ ", language " ++
          compilator.configuration.language⟩]
    else tests.map fun test => ⟨test.name, compilator, test.expectedResult, none, ""⟩

def initialFields : Fields :=
  let versionResults : List CheckerTestResult := svc.configurations.map fun configuration =>
    ⟨"Version", ⟨configuration, configuration.name, none, none⟩, .accepted, none, ""⟩
  ⟨none, versionResults, svc.createTestResults (versionResults.map (·.compilator)), .unknown⟩

/-- `catch (Exception ex) when (ex is not OperationCanceledException)`: the exception as a value. -/
def caught {α : Type} (p : Task α) : Task (Except Exn α) :=
  p.andThen fun
    | .error .operationCanceled => .ret (.error .operationCanceled)
    | r => .ret (.ok r)

/-- The try block of a version request once there is an answer: `output`, `log` and what follows. -/
def readVersion (configuration : CompilatorConfiguration) (result : RunnerResult) :
    String × String × Except Exn (String × Option String) :=
  let command := configuration.getVersionCommand
  let log := raw ["Environment: " ++ configuration.configName, getCommandLog command result,
    "stdout:", getTruncatedString result.stdout (64 * 1024), "stderr:", getTruncatedString result.stderr (64 * 1024)]
  let output := Lib.Text.trim (Lib.Utf8.decode result.stdout ++ "\n" ++ Lib.Utf8.decode result.stderr)
  let info :=
    if result.status ≠ .completed ∨ result.exitCode ≠ 0 then
      .error (.invalidOperation ("status: " ++ result.status.name ++ ", exit code: " ++ toString result.exitCode))
    else configuration.parseInfo output
  (output, log, info)

/-- The compilator of a configuration and the log of its version request. -/
def versionInfo (configuration : CompilatorConfiguration) (answer : Except Exn RunnerResult) :
    CompilatorInfo × String :=
  let command := configuration.getVersionCommand
  let (output, log, info) :=
    match answer with
    | .ok result => readVersion configuration result
    | .error e => ("", "Environment: " ++ configuration.configName ++ "\ncommand: " ++ command, .error e)
  match info with
  | .ok (displayName, description) => (⟨configuration, displayName, description, none⟩, log)
  | .error e =>
    (⟨configuration, configuration.name, none,
      some (command ++ "\n" ++ output ++ "\n" ++ platform.message e)⟩,
      log ++ "\nError:\n" ++ platform.message e)

theorem versionInfo_configuration (configuration : CompilatorConfiguration) (answer : Except Exn RunnerResult) :
    (versionInfo platform configuration answer).1.configuration = configuration := by
  unfold versionInfo
  simp only
  split <;> rfl

def versionResult (compilator : CompilatorInfo) (log : String) : CheckerTestResult :=
  ⟨"Version", compilator, .accepted, some (if compilator.error.isNone then .accepted else .internalError), log⟩

abbrev VersionCache := List ((String × String) × RunnerResult)

/-- `TryGetValue`, or ask the runner and `Add`. -/
def fetchVersion (configuration : CompilatorConfiguration) (results : VersionCache) :
    Task (RunnerResult × VersionCache) :=
  let key := (configuration.configName, configuration.getVersionCommand)
  match results.lookup key with
  | some result => return (result, results)
  | none => do
    let result ← Prog.request (versionTask configuration)
    return (result, results ++ [(key, result)])

def versionLoop : List CompilatorConfiguration → VersionCache → List CompilatorInfo → Task (List CompilatorInfo)
  | [], _, compilators => return compilators
  | configuration :: rest, results, compilators => do
    Prog.throwIfCancelled .operationCanceled
    let answer ← caught (fetchVersion configuration results)
    let results := match answer with
      | .ok (_, results) => results
      | .error _ => results
    let (compilator, log) := versionInfo platform configuration (answer.map Prod.fst)
    let i := compilators.length
    Prog.modify fun fields =>
      { fields with versionResults := fields.versionResults.set i (versionResult compilator log) }
    versionLoop rest results (compilators ++ [compilator])

def byDisplayName (a b : CompilatorInfo) : Bool :=
  decide (Lib.Text.ordinal a.displayName ≤ Lib.Text.ordinal b.displayName)

def loadBody : Task Unit := do
  let fields ← Prog.get
  if fields.compilators.isSome then return ()
  else do
    let compilators ← versionLoop platform svc.configurations [] []
    let sorted := Lib.Query.orderBy byDisplayName compilators
    Prog.modify fun fields => { fields with checkerTestResults := svc.createTestResults sorted }
    Prog.modify fun fields => { fields with compilators := some sorted }

def loadCompilators : Task Unit := do
  let fields ← Prog.get
  if fields.compilators.isSome then return ()
  else do
    Prog.waitSemaphore
    (svc.loadBody platform).finallyRelease

def runCheckerTest (test : SelfTest) (configuration : CompilatorConfiguration) :
    Task (CheckerResultStatus × String) := do
  let compileResult ← svc.compile test.name configuration test.source true
  let compilationLog := getCompilationLog (configuration.getCompileCommand test.name) compileResult
  if compileResult.status ≠ .completed then
    return (.compilationError, raw [compilationLog, "source:", test.source])
  else do
    let (status, result) ← svc.checkTest test.name configuration test.checker (encode test.input) (encode test.output)
      test.timeLimit test.memoryLimitMB
    return (status, raw (executionLines compilationLog result ++
      ["source:", test.source, "test input:", test.input, "test output", test.output,
        "stdout:", getTruncatedString result.stdout 1024, "stderr:", getTruncatedString result.stderr 1024]))

def setTestResult (resultIndex : Nat) (result : CheckerTestResult) : Task Unit :=
  Prog.modify fun fields => { fields with checkerTestResults := fields.checkerTestResults.set resultIndex result }

/-- One self-test: the result is read after the wait and before the try block. -/
def selfTest (test : SelfTest) (configuration : CompilatorConfiguration) (resultIndex : Nat) : Task Unit := do
  Prog.throwIfCancelled .operationCanceled
  Prog.waitSemaphore
  let fields ← Prog.get
  match fields.checkerTestResults[resultIndex]? with
  | none => Prog.throw .indexOutOfRange
  | some pending =>
    Prog.finallyRelease do
      let answer ← caught (svc.runCheckerTest test configuration)
      match answer with
      | .ok (status, output) => setTestResult resultIndex { pending with result := some status, output := output }
      | .error e =>
        setTestResult resultIndex { pending with result := some .internalError, output := platform.text e }

def selfTestsOf (compilator : CompilatorInfo) : List SelfTest → (index : Nat) → Task Unit
  | [], _ => return ()
  | test :: tests, index => do
    if compilator.error.isNone then svc.selfTest platform test compilator.configuration index
    selfTestsOf compilator tests (index + 1)

def selfTestLoop : List CompilatorInfo → (index : Nat) → Task Unit
  | [], _ => return ()
  | compilator :: rest, index => do
    let tests := svc.getTests compilator.configuration
    if tests.length = 0 then selfTestLoop rest (index + 1)
    else do
      svc.selfTestsOf platform compilator tests index
      selfTestLoop rest (index + tests.length)

def selfTestingResults (fields : Fields) : List CheckerTestResult := fields.versionResults ++ fields.checkerTestResults

def runSelfTests : Task Bool := do
  svc.loadCompilators platform
  let fields ← Prog.get
  match fields.compilators with
  | none => Prog.throw .nullReference
  | some compilators => do
    Prog.modify fun fields => { fields with checkerTestResults := svc.createTestResults compilators }
    Prog.modify fun fields => { fields with selfTestingStatus := .inProcess }
    svc.selfTestLoop platform compilators 0
    let fields ← Prog.get
    let success := decide (0 < compilators.length) &&
      (selfTestingResults fields).all fun x => x.result == some x.expectedResult
    Prog.modify fun fields => { fields with selfTestingStatus := if success then .success else .failed }
    return success

end CheckerService

end OlympSystem.Checker
