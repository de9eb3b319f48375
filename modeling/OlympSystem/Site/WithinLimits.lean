/-
  OlympSystem.Site.WithinLimits — what a verdict says about the process that was run.

  A test's request goes from `CheckerService` through `RunnerService.Run` to
  `RunnerClientService.Run` and its answer back; on the way the status has three
  enumerations. `answer` is the way there and back, `verdictOf` the order in which the
  verdicts are decided, stated on the process alone.

  Proved:
  - `judge_eq`: the three translations together are `verdictOf`, whenever the times can
    be sent; else the request fails.
  - `verdictOf_accepted`: `Accepted` is a process within all limits whose complete output
    the checker accepts.
  - `accepted_within_limits`: so it is for every attempt of every check.
-/

import OlympSystem.Checker.Verdict
import OlympSystem.Runner.RunnerClientService

namespace OlympSystem.Site.WithinLimits

open Lib.Program OlympSystem.Checker CheckerService Verdict
open OlympSystem.Runner (ProcessOutcome Output)
open OlympSystem.Runner.RunnerClientService hiding run

/-! ## The rule -/

section Rule

variable (request : CheckRequest) (checker : SimpleChecker) (test : CheckTest) (process : ProcessOutcome)

def limits : RunnerResources :=
  (runTask request.name request.compilator.configuration test.input request.timeLimit
    request.memoryLimitMb).resourceLimits

/-- What the checker says about the complete output. -/
def checked : Except Exn CheckerResultStatus :=
  checker.check (Lib.Utf8.decode test.input) (Lib.Utf8.decode test.output)
    (Lib.Utf8.decode process.standardOutput.bytes)

/-- The verdict, by the precedence memory, stdout, stderr, user time, total time, exit code, checker. -/
def verdictOf : Except Exn CheckerResultStatus :=
  if (limits request test).memory < process.peakJobMemoryUsed then .ok .memoryLimit
  else if 1048576 ≤ process.standardOutput.bytes.length then .ok .presentationError
  else if 4096 ≤ process.standardError.bytes.length then .ok .presentationError
  else if (limits request test).userTime < process.totalUserTime then .ok .timeLimit
  else if (limits request test).userTime + .fromSeconds 5 < process.processTotalTime then .ok .idlenessLimit
  else if process.exitCode ≠ 0 then .ok .runtimeError
  else checked checker test process

/-- A process within all limits, whose output the checker accepts. -/
structure Passes : Prop where
  exitCode : process.exitCode = 0
  userTime : process.totalUserTime ≤ (limits request test).userTime
  totalTime : process.processTotalTime ≤ (limits request test).userTime + .fromSeconds 5
  memory : process.peakJobMemoryUsed ≤ (limits request test).memory
  stdout : process.standardOutput.bytes.length < 1048576
  stderr : process.standardError.bytes.length < 4096
  accepted : checked checker test process = .ok .accepted

/-- The times that are sent fit their messages: they are at most 10000 years. -/
def Sendable : Prop :=
  IsDuration request.timeLimit ∧ IsDuration (request.timeLimit + .fromSeconds 5) ∧
    IsDuration process.totalUserTime ∧ IsDuration process.processTotalTime

/-- A process that is within no limit is not accepted, nor one whose output the checker rejects. -/
theorem verdictOf_accepted :
    verdictOf request checker test process = .ok .accepted ↔ Passes request checker test process := by
  unfold verdictOf
  constructor
  · intro h
    split at h
    · cases h
    · next hmemory =>
      split at h
      · cases h
      · next hstdout =>
        split at h
        · cases h
        · next hstderr =>
          split at h
          · cases h
          · next huser =>
            split at h
            · cases h
            · next htotal =>
              split at h
              · cases h
              · next hexit =>
                exact ⟨not_not.mp hexit, not_lt.mp huser, not_lt.mp htotal, not_lt.mp hmemory, not_le.mp hstdout,
                  not_le.mp hstderr, h⟩
  · intro h
    rw [if_neg (not_lt.mpr h.memory), if_neg (not_le.mpr h.stdout), if_neg (not_le.mpr h.stderr),
      if_neg (not_lt.mpr h.userTime), if_neg (not_lt.mpr h.totalTime), if_neg (not_not.mpr h.exitCode)]
    exact h.accepted

end Rule

/-! ## There and back -/

/-- `RunnerService.Run`, with a runner whose process ends so. -/
def answer [Durations] (task : RunnerTask) (process : ProcessOutcome) : Except Exn RunnerResult := do
  let response ← Runner.RunnerClientService.run (toCommandRequest task) process
  toRunnerResult response

/-- What `RunnerService.Run` makes of the status a process gets, read as a verdict. -/
def judge [Durations] (request : CheckRequest) (checker : SimpleChecker) (test : CheckTest) (process : ProcessOutcome) :
    Except Exn CheckerResultStatus := do
  let result ← answer (runTask request.name request.compilator.configuration test.input request.timeLimit
    request.memoryLimitMb) process
  testStatus checker test.input test.output result

instance (request : CheckRequest) (process : ProcessOutcome) : Decidable (Sendable request process) :=
  inferInstanceAs (Decidable (_ ∧ _))

theorem readDuration_fromTimeSpan [Durations] (t : TimeSpan) :
    readDuration (some (Durations.fromTimeSpan t)) =
      if IsDuration t then .ok t else .error (.invalidOperation "Duration was not a valid normalized duration") := by
  split
  · next h => exact Durations.roundTrip t h
  · next h => exact Durations.outOfRange t h

theorem readOutput_eq {limit : Nat} (hpos : 0 < limit) (hlt : limit < 2147483648) (output : Output) :
    readOutput limit output = .ok (output.bytes.take limit, decide (limit ≤ output.bytes.length)) := by
  have hcast : toInt32 limit = limit := by unfold toInt32; omega
  unfold readOutput
  rw [hcast, if_neg (by omega), Int.toNat_natCast, readToBuffer_eq hpos]

/-- The result of a test's request when its times can be sent. -/
def answered (request : CheckRequest) (test : CheckTest) (process : ProcessOutcome) : RunnerResult where
  status := toRunnerStatus (commandStatus process.exitCode (request.timeLimit < process.totalUserTime)
    (request.timeLimit + .fromSeconds 5 < process.processTotalTime)
    ((limits request test).memory < process.peakJobMemoryUsed)
    (1048576 ≤ process.standardOutput.bytes.length) (4096 ≤ process.standardError.bytes.length))
  exitCode := process.exitCode
  stdout := process.standardOutput.bytes.take 1048576
  stderr := process.standardError.bytes.take 4096
  resourceConsumption := ⟨process.totalUserTime, process.processTotalTime, process.peakJobMemoryUsed,
    (process.standardOutput.bytes.take 1048576).length, (process.standardError.bytes.take 4096).length⟩

theorem answer_eq [Durations] (request : CheckRequest) (test : CheckTest) (process : ProcessOutcome) :
    answer (runTask request.name request.compilator.configuration test.input request.timeLimit request.memoryLimitMb)
        process =
      if Sendable request process then .ok (answered request test process)
      else .error (.invalidOperation "Duration was not a valid normalized duration") := by
  unfold answer Runner.RunnerClientService.run toCommandRequest runTask Sendable
  simp only [readDuration_fromTimeSpan, readOutput_eq (by decide : 0 < 1024 * 1024) (by decide),
    readOutput_eq (by decide : 0 < 4096) (by decide)]
  by_cases h₁ : IsDuration request.timeLimit
  · by_cases h₂ : IsDuration (request.timeLimit + TimeSpan.fromSeconds 5)
    · -- the request can be sent; now its answer
      simp only [h₁, h₂, if_true, true_and, bind, Except.bind, pure, Except.pure, toRunnerResult,
        readDuration_fromTimeSpan]
      by_cases h₃ : IsDuration process.totalUserTime
      · by_cases h₄ : IsDuration process.processTotalTime
        · simp only [h₃, h₄, if_true, true_and]; rfl
        · simp only [h₃, h₄, if_true, if_false, and_false]
      · simp only [h₃, if_false, false_and]
    · simp only [h₁, h₂, if_true, if_false, false_and, and_false, bind, Except.bind]
  · simp only [h₁, if_false, false_and, bind, Except.bind]

/-- The verdict on a result is that on its process. -/
theorem testStatus_answered (request : CheckRequest) (checker : SimpleChecker) (test : CheckTest)
    (process : ProcessOutcome) :
    testStatus checker test.input test.output (answered request test process) =
      verdictOf request checker test process := by
  have hlimit : (limits request test).userTime = request.timeLimit := rfl
  unfold testStatus answered verdictOf commandStatus
  rw [hlimit]
  by_cases hmemory : (limits request test).memory < process.peakJobMemoryUsed
  · simp [hmemory, toRunnerStatus]
  by_cases hstdout : 1048576 ≤ process.standardOutput.bytes.length
  · simp [hmemory, hstdout, toRunnerStatus]
  by_cases hstderr : 4096 ≤ process.standardError.bytes.length
  · simp [hmemory, hstdout, hstderr, toRunnerStatus]
  by_cases huser : request.timeLimit < process.totalUserTime
  · simp [hmemory, hstdout, hstderr, huser, toRunnerStatus]
  by_cases htotal : request.timeLimit + TimeSpan.fromSeconds 5 < process.processTotalTime
  · simp [hmemory, hstdout, hstderr, huser, htotal, toRunnerStatus]
  by_cases hexit : process.exitCode ≠ 0
  · simp [hmemory, hstdout, hstderr, huser, htotal, hexit, toRunnerStatus]
  · -- nothing was truncated: the checker gets the complete output
    have hall : process.standardOutput.bytes.take 1048576 = process.standardOutput.bytes :=
      List.take_of_length_le (not_le.mp hstdout).le
    simp [hmemory, hstdout, hstderr, huser, htotal, hexit, toRunnerStatus, hall, checked]

theorem judge_eq [Durations] (request : CheckRequest) (checker : SimpleChecker) (test : CheckTest)
    (process : ProcessOutcome) :
    judge request checker test process =
      if Sendable request process then verdictOf request checker test process
      else .error (.invalidOperation "Duration was not a valid normalized duration") := by
  unfold judge
  rw [answer_eq]
  by_cases h : Sendable request process
  · rw [if_pos h, if_pos h]
    exact testStatus_answered request checker test process
  · rw [if_neg h, if_neg h]
    rfl

/-! ## Whole checks -/

/-- The attempts of test runs, in the order of their requests. -/
def attemptsOf (runs : List TestRun) : List (TestRun × Attempt) :=
  runs.flatMap fun run => run.attempts.map fun x => (run, x)

theorem requestsOf_eq (request : CheckRequest) (runs : List TestRun) :
    requestsOf request runs = (attemptsOf runs).map fun x =>
      (runTask request.name request.compilator.configuration x.1.test.input request.timeLimit request.memoryLimitMb,
        .ok x.2.result) := by
  unfold requestsOf attemptsOf
  rw [List.map_flatMap]
  simp only [List.map_map]
  rfl

theorem mem_attemptsOf {runs : List TestRun} {run : TestRun} {x : Attempt} :
    (run, x) ∈ attemptsOf runs ↔ run ∈ runs ∧ x ∈ run.attempts := by
  simp only [attemptsOf, List.mem_flatMap, List.mem_map, Prod.mk.injEq]
  constructor
  · rintro ⟨_, hrun, _, hx, rfl, rfl⟩; exact ⟨hrun, hx⟩
  · rintro ⟨hrun, hx⟩; exact ⟨run, hrun, x, hx, rfl, rfl⟩

/-- The last attempt of a test run, which decides its verdict. -/
def lastAttempt (run : TestRun) : Attempt := run.retry.getD run.first

/-- Where the last attempt of the `i`-th run stands among all. -/
theorem lastAttempt_at {runs : List TestRun} {i : Nat} {run : TestRun} (h : runs[i]? = some run) :
    ∃ k, (attemptsOf (runs.take (i + 1))).length = k + 1 ∧ (attemptsOf runs)[k]? = some (run, lastAttempt run) := by
  obtain ⟨hi, hrun⟩ := List.getElem?_eq_some_iff.mp h
  have hsplit : runs = runs.take i ++ run :: runs.drop (i + 1) := by
    rw [← hrun, List.cons_getElem_drop_succ, List.take_append_drop]
  have htake : runs.take (i + 1) = runs.take i ++ [run] := by rw [List.take_add_one, h]; rfl
  have hall : attemptsOf runs =
      attemptsOf (runs.take i) ++ (run.attempts.map (fun x => (run, x)) ++ attemptsOf (runs.drop (i + 1))) := by
    conv_lhs => rw [hsplit]
    simp [attemptsOf]
  rw [htake, hall]
  cases hretry : run.retry with
  | none => exact ⟨(attemptsOf (runs.take i)).length, by simp [attemptsOf, TestRun.attempts, hretry],
      by simp [TestRun.attempts, lastAttempt, hretry]⟩
  | some x => exact ⟨(attemptsOf (runs.take i)).length + 1, by simp [attemptsOf, TestRun.attempts, hretry],
      by simp [TestRun.attempts, lastAttempt, hretry]⟩

/-- What test runs tell about the processes of the runner: process 0 is the compilation's,
    process `k + 1` that of attempt `k`. -/
structure Accounted (request : CheckRequest) (checker : SimpleChecker) (processes : Nat → ProcessOutcome)
    (runs : List TestRun) : Prop where
  /-- Each attempt has the verdict of its process. -/
  attempts : ∀ k run x, (attemptsOf runs)[k]? = some (run, x) →
    verdictOf request checker run.test (processes (k + 1)) = .ok x.verdict
  /-- A test is accepted exactly if the process of its last attempt passes. -/
  final : ∀ i run, runs[i]? = some run → (run.verdict = .accepted ↔
    Passes request checker run.test (processes (attemptsOf (runs.take (i + 1))).length))

/-- Answers that are those of processes. -/
theorem accounted_of_log [Durations] {request : CheckRequest} {checker : SimpleChecker}
    {processes : Nat → ProcessOutcome} {runs : List TestRun} (hfollows : ∀ run ∈ runs, run.Follows checker)
    (hlog : ∀ k x, (requestsOf request runs)[k]? = some x → x.2 = answer x.1 (processes (k + 1))) :
    Accounted request checker processes runs := by
  have hattempts : ∀ k run x, (attemptsOf runs)[k]? = some (run, x) →
      verdictOf request checker run.test (processes (k + 1)) = .ok x.verdict := by
    intro k run x hk
    obtain ⟨hrun, hx⟩ := mem_attemptsOf.mp (List.mem_of_getElem? hk)
    have hanswer := hlog k (runTask request.name request.compilator.configuration run.test.input request.timeLimit
      request.memoryLimitMb, .ok x.result) (by rw [requestsOf_eq, List.getElem?_map, hk]; rfl)
    have hstatus := (hfollows run hrun).verdicts x hx
    have hjudge : judge request checker run.test (processes (k + 1)) = .ok x.verdict := by
      unfold judge
      rw [← hanswer]
      exact hstatus
    rw [judge_eq] at hjudge
    split at hjudge
    · exact hjudge
    · cases hjudge
  refine ⟨hattempts, fun i run hi => ?_⟩
  obtain ⟨k, hk, hlast⟩ := lastAttempt_at hi
  have hverdict := hattempts k run _ hlast
  rw [hk, ← verdictOf_accepted, hverdict]
  exact ⟨fun ha => congrArg _ ha, fun ha => Except.ok.inj ha⟩

abbrev checkAgainst [Durations] (svc : CheckerService) (platform : Platform) (request : CheckRequest)
    (elapsed : TimeSpan) (s : Fields) (processes : Nat → ProcessOutcome) : CheckOutcome :=
  Prog.against (svc.check platform request elapsed) s fun k task => answer task (processes k)

/-- One verdict for each process, by the precedence; and in every check that returns a test
    is accepted exactly if the process of its last attempt is within all limits. -/
theorem accepted_within_limits [Durations] (svc : CheckerService) (platform : Platform) (request : CheckRequest)
    (elapsed : TimeSpan) (s : Fields) (processes : Nat → ProcessOutcome) :
    (∀ checker test process, judge request checker test process =
      if Sendable request process then verdictOf request checker test process
      else .error (.invalidOperation "Duration was not a valid normalized duration")) ∧
    (∀ checker test process, verdictOf request checker test process = .ok .accepted ↔
      Passes request checker test process) ∧
    ∀ result, (checkAgainst svc platform request elapsed s processes).result = .ok result →
      ∃ compileResult, answer (compileTask request.name request.compilator.configuration request.source true)
          (processes 0) = .ok compileResult ∧
        (compileResult.status ≠ .completed →
          (checkAgainst svc platform request elapsed s processes).log = [compileEntry request (.ok compileResult)]) ∧
        (compileResult.status = .completed → ∃ checker runs, svc.findChecker request.checkerId = some checker ∧
          Executed request.allTests request.tests runs ∧
          (checkAgainst svc platform request elapsed s processes).log =
            compileEntry request (.ok compileResult) :: requestsOf request runs ∧
          Accounted request checker processes runs) := by
  refine ⟨judge_eq request, verdictOf_accepted request, fun result h => ?_⟩
  obtain ⟨a, hrun, hlog⟩ := Prog.against_eq_solo (.error .overflow) (svc.check platform request elapsed) s
    fun k task => answer task (processes k)
  unfold checkAgainst at h ⊢
  rw [hrun] at h ⊢
  obtain ⟨havail, hsup, compileResult, h0⟩ := check_available platform elapsed h
  have hsolo := solo_compiled platform elapsed (s := s) havail hsup h0
  by_cases hc : compileResult.status = .completed
  · obtain ⟨checker, runs, hchecker, hexec, hfollows, hentries, -⟩ := check_scored platform elapsed h0 hc h
    rw [h0] at hentries
    rw [hentries] at hlog ⊢
    refine ⟨compileResult, (hlog 0 _ rfl).symm, fun hn => absurd hc hn, fun _ =>
      ⟨checker, runs, hchecker, hexec, rfl, accounted_of_log hfollows fun k x hk => hlog (k + 1) x hk⟩⟩
  · rw [if_pos hc, h0] at hsolo
    rw [hsolo] at hlog ⊢
    exact ⟨compileResult, (hlog 0 _ rfl).symm, fun _ => rfl, fun hn => absurd hn hc⟩

def sampleProcess : ProcessOutcome :=
  ⟨0, .fromSeconds 1, .fromSeconds 2, 1000, ⟨[[0x61]], by decide⟩, ⟨[], by decide⟩⟩

section Sample

local instance sampleDurations : Durations := ticks

theorem sample_within_limits :
    let o := checkAgainst sampleService samplePlatform sampleRequest 0 sampleService.initialFields
      fun _ => sampleProcess
    ∃ checker runs, sampleService.findChecker sampleRequest.checkerId = some checker ∧
      Executed sampleRequest.allTests sampleRequest.tests runs ∧
      o.log = compileEntry sampleRequest (answer (compileTask sampleRequest.name
        sampleRequest.compilator.configuration sampleRequest.source true) sampleProcess) ::
          requestsOf sampleRequest runs ∧
      Accounted sampleRequest checker (fun _ => sampleProcess) runs := by
  obtain ⟨compileResult, hcompile, -, hruns⟩ := (accepted_within_limits sampleService samplePlatform sampleRequest 0
    sampleService.initialFields fun _ => sampleProcess).2.2 _ rfl
  have hc : compileResult.status = .completed := by
    have hstatus : (answer (compileTask sampleRequest.name sampleRequest.compilator.configuration sampleRequest.source
        true) sampleProcess).map RunnerResult.status = .ok .completed := by decide +kernel
    rw [hcompile] at hstatus
    exact Except.ok.inj hstatus
  rw [hcompile]
  exact hruns hc

end Sample

end OlympSystem.Site.WithinLimits
