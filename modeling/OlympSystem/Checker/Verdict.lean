/-
  OlympSystem.Checker.Verdict — what one `Check` answers.

  A `TestRun` is a test with its attempts: the runner's answers and the verdicts on
  them. `Executed` says which tests were run, `TestRun.Follows` how often; the final
  verdict is that of the last attempt. All statements are about the solo run of `check`
  on a stream of answers.

  Proved:
  - `testLoop_runs`: a loop that ends is a list of test runs, whose requests are its
    requests and whose verdicts it collects.
  - `testLoop_returns`: on specified answers it ends.
  - `verdict_law`: status, requests and attempts of every check.
  - `check_scored`: score and per-test results of every check that returns.
-/

import OlympSystem.Checker.Service

namespace OlympSystem.Checker.Verdict

open Lib.Program Lib.Checked CheckerService

/-! ## Test runs -/

structure Attempt where
  result : RunnerResult
  verdict : CheckerResultStatus
  deriving DecidableEq, Repr

structure TestRun where
  test : CheckTest
  first : Attempt
  retry : Option Attempt
  deriving DecidableEq, Repr

namespace TestRun

def attempts (run : TestRun) : List Attempt := run.first :: run.retry.toList

def verdict (run : TestRun) : CheckerResultStatus := (run.retry.getD run.first).verdict

/-- The verdicts are those on the answers, and there are two attempts exactly if the
    first gave a time or memory limit. -/
structure Follows (checker : SimpleChecker) (run : TestRun) : Prop where
  verdicts : ∀ x ∈ run.attempts, testStatus checker run.test.input run.test.output x.result = .ok x.verdict
  twice : run.attempts.length = if run.first.verdict = .timeLimit ∨ run.first.verdict = .memoryLimit then 2 else 1

end TestRun

def requestsOf (request : CheckRequest) (runs : List TestRun) : List (RunnerTask × Except Exn RunnerResult) :=
  runs.flatMap fun run => run.attempts.map fun x =>
    (runTask request.name request.compilator.configuration run.test.input request.timeLimit request.memoryLimitMb,
      .ok x.result)

/-- All tests, or those up to the first that ends without `Accepted`. -/
def Executed (allTests : Bool) (tests : List CheckTest) (runs : List TestRun) : Prop :=
  ∃ rest, tests = runs.map TestRun.test ++ rest ∧
    match allTests with
    | true => rest = []
    | false => (∀ run ∈ runs.dropLast, run.verdict = .accepted) ∧
      (rest = [] ∨ ∃ last, runs.getLast? = some last ∧ last.verdict ≠ .accepted)

def firstFailure (runs : List TestRun) : Option TestRun := runs.find? fun run => run.verdict ≠ .accepted

/-- 2, or the code of the first verdict that is not `Accepted`, with its test's number. -/
def statusCodeOf (runs : List TestRun) : Except Exn Int :=
  match firstFailure runs with
  | none => .ok 2
  | some run => makeStatusCode run.verdict (some run.test.number)

theorem firstFailure_none {runs : List TestRun} :
    firstFailure runs = none ↔ ∀ run ∈ runs, run.verdict = .accepted := by
  simp [firstFailure]

theorem requestsOf_cons (request : CheckRequest) (run : TestRun) (runs : List TestRun) :
    requestsOf request (run :: runs) = requestsOf request [run] ++ requestsOf request runs := by
  simp [requestsOf]

/-! ## The executed tests, test by test -/

theorem executed_nil (allTests : Bool) : Executed allTests [] [] :=
  ⟨[], rfl, by cases allTests <;> simp⟩

theorem executed_accepted {allTests : Bool} {tests : List CheckTest} {run : TestRun} {runs : List TestRun}
    (h : Executed allTests tests runs) (ha : run.verdict = .accepted) :
    Executed allTests (run.test :: tests) (run :: runs) := by
  obtain ⟨rest, htests, hrest⟩ := h
  refine ⟨rest, by rw [htests]; rfl, ?_⟩
  cases allTests with
  | true => exact hrest
  | false =>
    obtain ⟨hall, hend⟩ := hrest
    cases runs with
    | nil =>
      refine And.intro (fun r hr => by cases hr) (Or.inl ?_)
      rcases hend with hend | ⟨last, hlast, -⟩
      · exact hend
      · cases hlast
    | cons r runs =>
      refine And.intro (fun x hx => ?_) hend
      rcases List.mem_cons.mp hx with rfl | hx
      · exact ha
      · exact hall x hx

theorem executed_continues {tests : List CheckTest} {run : TestRun} {runs : List TestRun}
    (h : Executed true tests runs) : Executed true (run.test :: tests) (run :: runs) := by
  obtain ⟨rest, htests, hrest⟩ := h
  exact ⟨rest, by rw [htests]; rfl, hrest⟩

theorem executed_stops {tests : List CheckTest} {run : TestRun} (h : run.verdict ≠ .accepted) :
    Executed false (run.test :: tests) [run] :=
  ⟨tests, rfl, And.intro (fun r hr => by cases hr) (Or.inr ⟨run, rfl, h⟩)⟩

/-! ## One test -/

section Loop

variable (svc : CheckerService) (platform : Platform)

abbrev Answers := Nat → Except Exn RunnerResult

theorem checkTest_ok {name : String} {configuration : CompilatorConfiguration} {checker : SimpleChecker}
    {input output : Bytes} {timeLimit : TimeSpan} {memoryLimitMb : Int} {s : Fields} {a : Answers}
    {x : CheckerResultStatus × RunnerResult}
    (h : (Prog.solo (svc.checkTest name configuration checker input output timeLimit memoryLimitMb) s a).result =
      .ok x) :
    a 0 = .ok x.2 ∧ testStatus checker input output x.2 = .ok x.1 ∧
      Prog.solo (svc.checkTest name configuration checker input output timeLimit memoryLimitMb) s a =
        ⟨[(runTask name configuration input timeLimit memoryLimitMb, .ok x.2)], .ok x, s⟩ := by
  unfold checkTest runTest requestFor at h ⊢
  by_cases hs : svc.supports configuration = true
  · rw [if_pos hs] at h ⊢
    obtain ⟨result, hr⟩ := Prog.solo_bind_ok h
    rw [Prog.solo_bind _ hr] at h ⊢
    have hr' : a 0 = .ok result := hr
    obtain ⟨status, hst⟩ := Prog.solo_bind_ok h
    rw [Prog.solo_bind _ hst] at h ⊢
    have hst' : testStatus checker input output result = .ok status := hst
    have hx : (status, result) = x := Except.ok.inj h
    subst hx
    exact ⟨hr', hst', by simp [Prog.solo_request, hr', Prog.Outcome.after]⟩
  · rw [if_neg hs] at h
    obtain ⟨result, hr⟩ := Prog.solo_bind_ok h
    cases hr

/-- One attempt of a loop body: what it asks, and what it leaves in the variables. -/
theorem testAttempts_ok {request : CheckRequest} {checker : SimpleChecker} {test : CheckTest} {acc : Progress}
    {s : Fields} {a : Answers} {x : CheckerResultStatus × RunnerResult × Progress}
    (h : (Prog.solo (svc.testAttempts platform request checker test maxRetries acc) s a).result = .ok x) :
    ∃ run : TestRun, run.test = test ∧ run.Follows checker ∧ x.1 = run.verdict ∧
      x.2.2.testResults = acc.testResults ∧ x.2.2.statusCode = acc.statusCode ∧
      Prog.solo (svc.testAttempts platform request checker test maxRetries acc) s a =
        ⟨requestsOf request [run], .ok x, s⟩ := by
  unfold testAttempts at h ⊢
  obtain ⟨y, hy⟩ := Prog.solo_bind_ok h
  rw [Prog.solo_bind _ hy] at h ⊢
  obtain ⟨-, hstatus, hsolo⟩ := checkTest_ok svc hy
  rw [hsolo] at h ⊢
  obtain ⟨status, result⟩ := y
  by_cases hlimit : isResourceLimit status = true
  · -- the first attempt hit a limit: one more, whatever it gives
    simp only [maxRetries, hlimit, if_true] at h ⊢
    unfold testAttempts at h ⊢
    obtain ⟨z, hz⟩ := Prog.solo_bind_ok h
    rw [Prog.solo_bind _ hz] at h ⊢
    obtain ⟨-, hstatus', hsolo'⟩ := checkTest_ok svc hz
    rw [hsolo'] at h ⊢
    have hx : _ = x := Except.ok.inj h
    subst hx
    refine ⟨⟨test, ⟨result, status⟩, some ⟨z.2, z.1⟩⟩, rfl, ⟨?_, ?_⟩, rfl, rfl, rfl, ?_⟩
    · intro x hx
      rcases List.mem_cons.mp hx with rfl | hx
      · exact hstatus
      · rw [List.mem_singleton.mp hx]; exact hstatus'
    · have : status = .timeLimit ∨ status = .memoryLimit := by simpa [isResourceLimit] using hlimit
      rw [if_pos this]; rfl
    · rfl
  · simp only [maxRetries, Bool.not_eq_true _ ▸ hlimit, Bool.false_eq_true, if_false] at h ⊢
    have hx : _ = x := Except.ok.inj h
    subst hx
    refine ⟨⟨test, ⟨result, status⟩, none⟩, rfl, ⟨?_, ?_⟩, rfl, rfl, rfl, ?_⟩
    · intro x hx
      rw [List.mem_singleton.mp hx]; exact hstatus
    · have : ¬(status = .timeLimit ∨ status = .memoryLimit) := by simpa [isResourceLimit] using hlimit
      rw [if_neg this]; rfl
    · rfl

/-- What the variables hold after the loop, from what they held before. -/
structure Collected (acc acc' : Progress) (runs : List TestRun) : Prop where
  testResults : acc'.testResults = acc.testResults ++ runs.map TestRun.verdict
  first : acc.statusCode = 2 → statusCodeOf runs = .ok acc'.statusCode
  sticky : acc.statusCode ≠ 2 → acc'.statusCode = acc.statusCode

/-- The code of a test's verdict is not 2, so that the first one stays. -/
theorem makeStatusCode_ne_two {status : CheckerResultStatus} {t code : Int}
    (h : makeStatusCode status (some t) = .ok code) : code ≠ 2 := by
  unfold makeStatusCode at h
  cases status <;> simp only at h <;> (try split at h) <;> cases h <;> omega

theorem collected_accepted {acc acc₁ acc' : Progress} {run : TestRun} {runs : List TestRun}
    (h : Collected acc₁ acc' runs) (hv : run.verdict = .accepted)
    (hr : acc₁.testResults = acc.testResults ++ [run.verdict]) (hc : acc₁.statusCode = acc.statusCode) :
    Collected acc acc' (run :: runs) where
  testResults := by rw [h.testResults, hr]; simp
  first h2 := by
    have hskip : statusCodeOf (run :: runs) = statusCodeOf runs := by simp [statusCodeOf, firstFailure, hv]
    rw [hskip]
    exact h.first (hc.trans h2)
  sticky h2 := by rw [h.sticky (by rw [hc]; exact h2), hc]

theorem failed_ok {acc acc' : Progress} {test : CheckTest} {status : CheckerResultStatus} {result : RunnerResult}
    (h : acc.failed platform test status result = .ok acc') :
    acc'.testResults = acc.testResults ∧ acc'.statusCode ≠ 2 ∧
      (acc.statusCode = 2 → makeStatusCode status (some test.number) = .ok acc'.statusCode) ∧
      (acc.statusCode ≠ 2 → acc'.statusCode = acc.statusCode) := by
  unfold Progress.failed at h
  simp only at h
  by_cases h2 : acc.statusCode = 2
  · rw [if_pos h2] at h
    cases hm : makeStatusCode status (some test.number) with
    | error e => rw [hm] at h; cases h
    | ok code =>
      rw [hm] at h
      cases h
      exact ⟨rfl, makeStatusCode_ne_two hm, fun _ => rfl, fun hn => absurd h2 hn⟩
  · rw [if_neg h2] at h
    cases h
    exact ⟨rfl, h2, fun hp => absurd hp h2, fun _ => rfl⟩

theorem collected_failed {acc acc₁ acc₂ acc' : Progress} {run : TestRun} {runs : List TestRun} {result : RunnerResult}
    (h : Collected acc₂ acc' runs) (hv : run.verdict ≠ .accepted)
    (hf : acc₁.failed platform run.test run.verdict result = .ok acc₂)
    (hr : acc₁.testResults = acc.testResults ++ [run.verdict]) (hc : acc₁.statusCode = acc.statusCode) :
    Collected acc acc' (run :: runs) := by
  obtain ⟨hr₂, hne, hfirst, hsticky⟩ := failed_ok platform hf
  have hc' := h.sticky hne
  refine ⟨by rw [h.testResults, hr₂, hr]; simp, fun h2 => ?_, fun h2 => ?_⟩
  · have hthis : statusCodeOf (run :: runs) = makeStatusCode run.verdict (some run.test.number) := by
      simp [statusCodeOf, firstFailure, hv]
    rw [hthis, hfirst (hc.trans h2), hc']
  · rw [hc', hsticky (by rw [hc]; exact h2), hc]

theorem collected_nil (acc : Progress) : Collected acc acc [] :=
  ⟨by simp, fun h2 => by rw [h2]; rfl, fun _ => rfl⟩

/-- A loop over the tests that ends is a list of test runs. -/
theorem testLoop_runs {request : CheckRequest} {checker : SimpleChecker} :
    ∀ {tests : List CheckTest} {acc acc' : Progress} {s : Fields} {a : Answers},
      (Prog.solo (svc.testLoop platform request checker tests acc) s a).result = .ok acc' →
      ∃ runs, Executed request.allTests tests runs ∧ (∀ run ∈ runs, run.Follows checker) ∧ Collected acc acc' runs ∧
        Prog.solo (svc.testLoop platform request checker tests acc) s a = ⟨requestsOf request runs, .ok acc', s⟩ := by
  intro tests
  induction tests with
  | nil =>
    intro acc acc' s a h
    cases h
    exact ⟨[], executed_nil _, fun run hr => (nomatch hr), collected_nil _, rfl⟩
  | cons test tests ih =>
    intro acc acc' s a h
    unfold testLoop at h ⊢
    obtain ⟨x, hx⟩ := Prog.solo_bind_ok h
    rw [Prog.solo_bind _ hx] at h ⊢
    obtain ⟨run, htest, hfollows, hverdict, hresults, hcode, hsolo⟩ := testAttempts_ok svc platform hx
    rw [hsolo] at h ⊢
    obtain ⟨status, result, acc₁⟩ := x
    simp only at hverdict hresults hcode h ⊢
    subst htest hverdict
    have hr : acc₁.testResults ++ [run.verdict] = acc.testResults ++ [run.verdict] := by
      simp [hresults, Progress.appendLine]
    have hc : acc₁.statusCode = acc.statusCode := by simp [hcode, Progress.appendLine]
    by_cases hv : run.verdict = .accepted
    · rw [if_pos hv] at h ⊢
      rw [Prog.Outcome.after_result] at h
      obtain ⟨runs, hexec, hfol, hcol, hsol⟩ := ih h
      refine ⟨run :: runs, executed_accepted hexec hv, List.forall_mem_cons.mpr ⟨hfollows, hfol⟩,
        collected_accepted hcol hv hr hc, ?_⟩
      rw [hsol, requestsOf_cons request run runs]; rfl
    · rw [if_neg hv] at h ⊢
      rw [Prog.Outcome.after_result] at h
      obtain ⟨acc₂, hf⟩ := Prog.solo_bind_ok h
      rw [Prog.solo_bind _ hf] at h ⊢
      have hf : Progress.failed platform { acc₁ with testResults := acc₁.testResults ++ [run.verdict] } run.test
        run.verdict result = .ok acc₂ := hf
      cases hall : request.allTests with
      | true =>
        rw [hall] at h ih
        obtain ⟨runs, hexec, hfol, hcol, hsol⟩ := ih h
        refine ⟨run :: runs, executed_continues hexec, List.forall_mem_cons.mpr ⟨hfollows, hfol⟩,
          collected_failed platform hcol hv hf hr hc, ?_⟩
        rw [if_pos rfl, requestsOf_cons request run runs]
        exact congrArg (Prog.Outcome.after _) hsol
      | false =>
        rw [hall] at h
        have hacc : acc₂ = acc' := Except.ok.inj h
        subst hacc
        refine ⟨[run], executed_stops hv, List.forall_mem_cons.mpr ⟨hfollows, fun r hr => (nomatch hr)⟩,
          collected_failed platform (collected_nil acc₂) hv hf hr hc, ?_⟩
        simp [Prog.Outcome.after, Prog.solo_lift, hf]

end Loop

/-! ## Checks that return -/

/-- The requests a checker gets: an available compilator, a registered checker that
    gives one of its three answers, numbers as an import guarantees them. -/
structure Proper (svc : CheckerService) (request : CheckRequest) (checker : SimpleChecker) : Prop where
  available : request.compilator.error = none
  supported : svc.supports request.compilator.configuration = true
  registered : svc.findChecker request.checkerId = some checker
  answers : ∀ juryInput juryOutput userOutput, ∃ verdict, checker.check juryInput juryOutput userOutput = .ok verdict ∧
    (verdict = .accepted ∨ verdict = .wrongAnswer ∨ verdict = .presentationError)
  numbers : ∀ test ∈ request.tests, 1 ≤ test.number ∧ test.number ≤ 999

/-- The runner answers every request, with a specified status. -/
def Specified (a : Answers) : Prop := ∀ n, ∃ result, a n = .ok result ∧ result.status ≠ .unspecified

section Returns

variable {svc : CheckerService} (platform : Platform) {request : CheckRequest} {checker : SimpleChecker}

theorem testStatus_proper (h : Proper svc request checker) (input output : Bytes) {result : RunnerResult}
    (hs : result.status ≠ .unspecified) :
    ∃ status, testStatus checker input output result = .ok status ∧ (status = .accepted ∨ status.perTest = true) := by
  unfold testStatus
  cases hst : result.status with
  | unspecified => exact absurd hst hs
  | completed =>
    obtain ⟨verdict, hv, hcases⟩ := h.answers (Lib.Utf8.decode input) (Lib.Utf8.decode output)
      (Lib.Utf8.decode result.stdout)
    refine ⟨verdict, hv, ?_⟩
    rcases hcases with rfl | rfl | rfl
    · exact Or.inl rfl
    · exact Or.inr rfl
    · exact Or.inr rfl
  | _ => exact ⟨_, rfl, Or.inr rfl⟩

theorem checkTest_returns (h : Proper svc request checker) {a : Answers} (ha : Specified a) (test : CheckTest)
    (s : Fields) : ∃ x, (Prog.solo (svc.checkTest request.name request.compilator.configuration checker test.input
      test.output request.timeLimit request.memoryLimitMb) s a).result = .ok x ∧
        (x.1 = .accepted ∨ x.1.perTest = true) := by
  obtain ⟨result, hr, hs⟩ := ha 0
  obtain ⟨status, hst, hcases⟩ := testStatus_proper h test.input test.output hs
  refine ⟨(status, result), ?_, hcases⟩
  have hrequest : (Prog.solo (Prog.request (runTask request.name request.compilator.configuration test.input
      request.timeLimit request.memoryLimitMb) : Task RunnerResult) s a).result = .ok result := hr
  unfold checkTest runTest requestFor
  rw [if_pos h.supported, Prog.solo_bind _ hrequest, Prog.Outcome.after_result, Prog.solo_request,
    Prog.solo_bind_lift _ hst]
  rfl

theorem testAttempts_returns (h : Proper svc request checker) {a : Answers} (ha : Specified a) (test : CheckTest)
    (acc : Progress) (s : Fields) :
    ∃ x, (Prog.solo (svc.testAttempts platform request checker test maxRetries acc) s a).result = .ok x ∧
      (x.1 = .accepted ∨ x.1.perTest = true) := by
  obtain ⟨y, hy, hcases⟩ := checkTest_returns h ha test s
  obtain ⟨status, result⟩ := y
  unfold testAttempts
  rw [Prog.solo_bind _ hy, Prog.Outcome.after_result]
  by_cases hlimit : isResourceLimit status = true
  · simp only [maxRetries, hlimit, if_true]
    obtain ⟨-, -, hsolo⟩ := checkTest_ok svc hy
    rw [hsolo]
    have ha' : Specified fun n => a (n + 1) := fun n => ha (n + 1)
    obtain ⟨z, hz, hcases'⟩ := checkTest_returns h ha' test s
    have hretry : (Prog.solo (svc.testAttempts platform request checker test 0 (acc.attempted platform status result))
        s fun n => a (n + 1)).result =
          .ok (z.1, z.2, (acc.attempted platform status result).attempted platform z.1 z.2) := by
      unfold testAttempts
      rw [Prog.solo_bind _ hz, Prog.Outcome.after_result]
      rfl
    exact ⟨_, hretry, hcases'⟩
  · refine ⟨(status, result, acc.attempted platform status result), ?_, hcases⟩
    simp only [maxRetries, hlimit, if_false, Bool.false_eq_true]
    rfl

/-- On specified answers the loop ends. -/
theorem testLoop_returns (h : Proper svc request checker) :
    ∀ {tests : List CheckTest}, (∀ test ∈ tests, 1 ≤ test.number ∧ test.number ≤ 999) →
      ∀ {a : Answers}, Specified a → ∀ (acc : Progress) (s : Fields),
        ∃ acc', (Prog.solo (svc.testLoop platform request checker tests acc) s a).result = .ok acc' := by
  intro tests
  induction tests with
  | nil => intro _ a _ acc s; exact ⟨acc, rfl⟩
  | cons test tests ih =>
    intro hn a ha acc s
    have hn' : ∀ test ∈ tests, 1 ≤ test.number ∧ test.number ≤ 999 := fun t ht => hn t (List.mem_cons_of_mem _ ht)
    have shift : ∀ k, Specified fun n => a (n + k) := fun k n => ha (n + k)
    obtain ⟨x, hx, hcases⟩ := testAttempts_returns platform h ha test
      (acc.appendLine platform (raw ["--------------", "Test " ++ toString test.number])) s
    obtain ⟨status, result, acc₁⟩ := x
    unfold testLoop
    rw [Prog.solo_bind _ hx, Prog.Outcome.after_result]
    by_cases hv : status = .accepted
    · simp only [if_pos hv]
      exact ih hn' (shift _) _ _
    · simp only [if_neg hv]
      have hper : status.perTest = true := hcases.resolve_left hv
      obtain ⟨h1, h999⟩ := hn test List.mem_cons_self
      obtain ⟨code, hcode, -⟩ := makeStatusCode_perTest hper h1 h999
      have hfailed : ∃ acc₂, Progress.failed platform { acc₁ with testResults := acc₁.testResults ++ [status] } test
          status result = .ok acc₂ := by
        unfold Progress.failed
        by_cases h2 : acc₁.statusCode = 2
        · simp only [if_pos h2, hcode]; exact ⟨_, rfl⟩
        · simp only [if_neg h2]; exact ⟨_, rfl⟩
      obtain ⟨acc₂, hf⟩ := hfailed
      rw [Prog.solo_bind_lift _ hf]
      cases hall : request.allTests with
      | true => exact ih hn' (shift _) _ _
      | false => exact ⟨acc₂, rfl⟩

end Returns

/-! ## Whole checks -/

section Checks

variable {svc : CheckerService} (platform : Platform) {request : CheckRequest} (elapsed : TimeSpan)

def compileEntry (request : CheckRequest) (answer : Except Exn RunnerResult) : RunnerTask × Except Exn RunnerResult :=
  (compileTask request.name request.compilator.configuration request.source true, answer)

theorem solo_check (s : Fields) (a : Answers) :
    Prog.solo (svc.check platform request elapsed) s a = Prog.solo (svc.checkBody platform request elapsed) s a := by
  unfold check
  have hwait : (Prog.solo (Prog.waitSemaphore : Task Unit) s a).result = .ok () := rfl
  rw [Prog.solo_bind _ hwait, Prog.solo_finallyRelease]
  rfl

/-- The log and the variables when the loop starts. -/
def compiledLog (svc : CheckerService) (platform : Platform) (request : CheckRequest) (compileResult : RunnerResult) :
    String :=
  appendLine platform (appendLine platform "" (svc.checkHeader request)) (raw ["Compilation:",
    "user time: " ++ compileResult.resourceConsumption.userTime.text,
    "total time: " ++ compileResult.resourceConsumption.totalTime.text])

def start (svc : CheckerService) (platform : Platform) (request : CheckRequest) (compileResult : RunnerResult) :
    Progress := ⟨compiledLog svc platform request compileResult, [], 2, 0, 0, 0⟩

/-- A check of an available compilator, once its compile request is answered. -/
theorem solo_compiled {s : Fields} {a : Answers} {compileResult : RunnerResult}
    (havail : request.compilator.error = none) (hsup : svc.supports request.compilator.configuration = true)
    (h0 : a 0 = .ok compileResult) :
    Prog.solo (svc.check platform request elapsed) s a =
      if compileResult.status ≠ .completed then
        ⟨[compileEntry request (a 0)], .ok ⟨-1, appendLine platform (compiledLog svc platform request compileResult)
          (getTruncatedString compileResult.stderr 1024), none, none⟩, s⟩
      else
        match svc.findChecker request.checkerId with
        | none => ⟨[compileEntry request (a 0)],
          .error (.invalidOperation ("Checker with id " ++ toString request.checkerId ++ " not found")), s⟩
        | some checker => Prog.Outcome.after [compileEntry request (a 0)] (Prog.solo (do
            let acc ← svc.testLoop platform request checker request.tests (start svc platform request compileResult)
            Prog.lift (checkerResult platform request elapsed acc)) s fun n => a (n + 1)) := by
  rw [solo_check]
  have hrequest : (Prog.solo (Prog.request (compileTask request.name request.compilator.configuration request.source
      true) : Task RunnerResult) s a).result = .ok compileResult := h0
  unfold checkBody compile requestFor
  simp only [havail]
  rw [if_pos hsup, Prog.solo_bind _ hrequest, Prog.solo_request]
  by_cases hc : compileResult.status ≠ .completed
  · rw [if_pos hc, if_pos hc]
    rfl
  · rw [if_neg hc, if_neg hc]
    cases svc.findChecker request.checkerId with
    | none => rfl
    | some checker => rfl

def scoreSum (runs : List TestRun) : Option Int := sumScores (runs.map fun run => testScore run.test run.verdict)

theorem zip_runs {β : Type} (f : CheckTest → CheckerResultStatus → β) {allTests : Bool} {tests : List CheckTest}
    {runs : List TestRun} (h : Executed allTests tests runs) :
    tests.zipWith f (runs.map TestRun.verdict) = runs.map fun run => f run.test run.verdict := by
  obtain ⟨rest, htests, -⟩ := h
  rw [htests]
  clear htests
  induction runs with
  | nil => simp
  | cons run runs ih => simp only [List.map_cons, List.cons_append, List.zipWith_cons_cons, ih]

/-- The result of a check, from its test runs. -/
theorem checkerResult_runs {runs : List TestRun} {acc : Progress}
    (hexec : Executed request.allTests request.tests runs) (hr : acc.testResults = runs.map TestRun.verdict) :
    checkerResult platform request elapsed acc =
      if request.tests.any (·.score.isSome) then
        match scoreSum runs with
        | none => .error .overflow
        | some score => .ok ⟨acc.statusCode, finishedLog platform elapsed acc, some score,
          some (String.intercalate ";" (runs.map fun run => testField run.test run.verdict))⟩
      else .ok ⟨acc.statusCode, finishedLog platform elapsed acc, none, none⟩ := by
  unfold checkerResult
  rw [hr, zip_runs testScore hexec, zip_runs testField hexec]
  rfl

/-- What a check with a completed compilation does: its test runs, and the result they give. -/
theorem check_runs {s : Fields} {a : Answers} {compileResult : RunnerResult} {checker : SimpleChecker} {acc : Progress}
    (havail : request.compilator.error = none) (hsup : svc.supports request.compilator.configuration = true)
    (hchecker : svc.findChecker request.checkerId = some checker) (h0 : a 0 = .ok compileResult)
    (hc : compileResult.status = .completed)
    (hacc : (Prog.solo (svc.testLoop platform request checker request.tests
      (start svc platform request compileResult)) s fun n => a (n + 1)).result = .ok acc) :
    ∃ runs, Executed request.allTests request.tests runs ∧ (∀ run ∈ runs, run.Follows checker) ∧
      statusCodeOf runs = .ok acc.statusCode ∧
      Prog.solo (svc.check platform request elapsed) s a =
        ⟨compileEntry request (a 0) :: requestsOf request runs,
          if request.tests.any (·.score.isSome) then
            match scoreSum runs with
            | none => .error .overflow
            | some score => .ok ⟨acc.statusCode, finishedLog platform elapsed acc, some score,
              some (String.intercalate ";" (runs.map fun run => testField run.test run.verdict))⟩
          else .ok ⟨acc.statusCode, finishedLog platform elapsed acc, none, none⟩, s⟩ := by
  obtain ⟨runs, hexec, hfollows, hcol, hsolo⟩ := testLoop_runs svc platform hacc
  refine ⟨runs, hexec, hfollows, hcol.first rfl, ?_⟩
  rw [solo_compiled platform elapsed havail hsup h0, if_neg (by simp [hc]), hchecker]
  simp only
  rw [Prog.solo_bind _ hacc, hsolo, Prog.solo_lift,
    checkerResult_runs platform elapsed hexec (by rw [hcol.testResults]; rfl)]
  simp [Prog.Outcome.after]

/-- A check that returned had an available compilator and an answer to its first request. -/
theorem check_available {s : Fields} {a : Answers} {result : CheckerResult}
    (h : (Prog.solo (svc.check platform request elapsed) s a).result = .ok result) :
    request.compilator.error = none ∧ svc.supports request.compilator.configuration = true ∧
      ∃ compileResult, a 0 = .ok compileResult := by
  rw [solo_check] at h
  have havail : request.compilator.error = none := by
    cases he : request.compilator.error with
    | none => rfl
    | some e =>
      unfold checkBody at h
      simp only [he] at h
      cases h
  have hsup : svc.supports request.compilator.configuration = true := by
    by_contra hn
    unfold checkBody compile requestFor at h
    simp only [havail, if_neg hn] at h
    obtain ⟨x, hx⟩ := Prog.solo_bind_ok h
    cases hx
  refine ⟨havail, hsup, ?_⟩
  unfold checkBody compile requestFor at h
  simp only [havail, if_pos hsup] at h
  exact Prog.solo_bind_ok h

/-- What was returned after a completed compilation came out of the loop. -/
theorem check_returned {s : Fields} {a : Answers} {compileResult : RunnerResult} {result : CheckerResult}
    (h0 : a 0 = .ok compileResult) (hc : compileResult.status = .completed)
    (h : (Prog.solo (svc.check platform request elapsed) s a).result = .ok result) :
    ∃ checker acc, request.compilator.error = none ∧ svc.supports request.compilator.configuration = true ∧
      svc.findChecker request.checkerId = some checker ∧
      (Prog.solo (svc.testLoop platform request checker request.tests (start svc platform request compileResult)) s
        fun n => a (n + 1)).result = .ok acc := by
  obtain ⟨havail, hsup, -⟩ := check_available platform elapsed h
  rw [solo_compiled platform elapsed havail hsup h0, if_neg (by simp [hc])] at h
  cases hf : svc.findChecker request.checkerId with
  | none => rw [hf] at h; cases h
  | some checker =>
    rw [hf] at h
    obtain ⟨acc, hacc⟩ := Prog.solo_bind_ok h
    exact ⟨checker, acc, havail, hsup, rfl, hacc⟩

theorem statusCodeOf_ne {runs : List TestRun} {code : Int} (h : statusCodeOf runs = .ok code) :
    code ≠ 0 ∧ code ≠ 1 := by
  unfold statusCodeOf at h
  split at h
  · cases h; decide
  · exact makeStatusCode_ne h

/-- No check returns the code of a queued or a claimed submission. -/
theorem check_code {s : Fields} {a : Answers} {result : CheckerResult}
    (h : (Prog.solo (svc.check platform request elapsed) s a).result = .ok result) :
    result.statusCode ≠ 0 ∧ result.statusCode ≠ 1 := by
  obtain ⟨havail, hsup, compileResult, h0⟩ := check_available platform elapsed h
  by_cases hc : compileResult.status = .completed
  · obtain ⟨checker, acc, -, -, hchecker, hacc⟩ := check_returned platform elapsed h0 hc h
    obtain ⟨runs, -, -, hcode, hsolo⟩ := check_runs platform elapsed havail hsup hchecker h0 hc hacc
    have hresult : result.statusCode = acc.statusCode := by
      rw [hsolo] at h
      by_cases hany : request.tests.any (·.score.isSome) = true
      · simp only [if_pos hany] at h
        cases hsum : scoreSum runs with
        | none => rw [hsum] at h; cases h
        | some score => rw [hsum] at h; cases h; rfl
      · simp only [if_neg hany] at h
        cases h; rfl
    rw [hresult]; exact statusCodeOf_ne hcode
  · rw [solo_compiled platform elapsed havail hsup h0, if_pos hc] at h
    cases h
    simp

/-! ## The laws -/

abbrev CheckOutcome := Prog.Outcome Fields Exn RunnerTask RunnerResult CheckerResult

/-- The status of a check whose compilation completed, from its test runs: the tests it
    ran, how often it ran each, and its code. The check returns unless the checked sum
    of its scores overflows. -/
structure Judged (request : CheckRequest) (checker : SimpleChecker) (compile : Except Exn RunnerResult)
    (o : CheckOutcome) (runs : List TestRun) (code : Int) : Prop where
  log : o.log = compileEntry request compile :: requestsOf request runs
  executed : Executed request.allTests request.tests runs
  attempts : ∀ run ∈ runs, run.Follows checker
  statusCode : statusCodeOf runs = .ok code
  accepted : code = 2 ↔ ∀ run ∈ runs, run.verdict = .accepted
  result : (∃ log score testResults, o.result = .ok ⟨code, log, score, testResults⟩) ∨
    (o.result = .error .overflow ∧ scoreSum runs = none)

theorem statusCodeOf_two {runs : List TestRun} {code : Int} (h : statusCodeOf runs = .ok code) :
    code = 2 ↔ ∀ run ∈ runs, run.verdict = .accepted := by
  rw [← firstFailure_none]
  unfold statusCodeOf at h
  cases hf : firstFailure runs with
  | none =>
    rw [hf] at h
    cases h
    exact ⟨fun _ => rfl, fun _ => rfl⟩
  | some run =>
    rw [hf] at h
    exact ⟨fun h2 => absurd h2 (makeStatusCode_ne_two h), fun hn => (nomatch hn)⟩

/-- A check whose compilation fails. -/
theorem check_uncompiled {checker : SimpleChecker} (h : Proper svc request checker) (s : Fields) {a : Answers}
    {compileResult : RunnerResult} (h0 : a 0 = .ok compileResult) (hc : compileResult.status ≠ .completed) :
    (Prog.solo (svc.check platform request elapsed) s a).log = [compileEntry request (a 0)] ∧
      ∃ log, (Prog.solo (svc.check platform request elapsed) s a).result = .ok ⟨-1, log, none, none⟩ := by
  rw [solo_compiled platform elapsed h.available h.supported h0, if_pos hc]
  exact ⟨rfl, _, rfl⟩

/-- A check whose compilation completes. -/
theorem check_judged {checker : SimpleChecker} (h : Proper svc request checker) (s : Fields) {a : Answers}
    {compileResult : RunnerResult} (h0 : a 0 = .ok compileResult) (hc : compileResult.status = .completed)
    (ha : Specified fun n => a (n + 1)) :
    ∃ runs code, Judged request checker (a 0) (Prog.solo (svc.check platform request elapsed) s a) runs code := by
  obtain ⟨acc, hacc⟩ := testLoop_returns platform h h.numbers ha (start svc platform request compileResult) s
  obtain ⟨runs, hexec, hfollows, hcode, hsolo⟩ :=
    check_runs platform elapsed h.available h.supported h.registered h0 hc hacc
  refine ⟨runs, acc.statusCode, by rw [hsolo], hexec, hfollows, hcode, statusCodeOf_two hcode, ?_⟩
  rw [hsolo]
  by_cases hany : request.tests.any (·.score.isSome) = true
  · simp only [if_pos hany]
    cases scoreSum runs with
    | none => exact Or.inr ⟨rfl, rfl⟩
    | some score => exact Or.inl ⟨_, _, _, rfl⟩
  · simp only [if_neg hany]
    exact Or.inl ⟨_, _, _, rfl⟩

/-- Every check of a proper request on specified answers. -/
theorem verdict_law {checker : SimpleChecker} (h : Proper svc request checker) (s : Fields)
    (answers : Nat → RunnerResult) (ha : ∀ n, (answers n).status ≠ .unspecified) :
    let a : Answers := fun n => .ok (answers n)
    let o := Prog.solo (svc.check platform request elapsed) s a
    (∀ k x, o.log[k]? = some x → x.2 = a k) ∧
      ((answers 0).status ≠ .completed →
        o.log = [compileEntry request (a 0)] ∧ ∃ log, o.result = .ok ⟨-1, log, none, none⟩) ∧
      ((answers 0).status = .completed → ∃ runs code, Judged request checker (a 0) o runs code) := by
  intro a o
  have h0 : a 0 = .ok (answers 0) := rfl
  have hspec : Specified fun n => a (n + 1) := fun n => ⟨answers (n + 1), rfl, ha (n + 1)⟩
  refine ⟨Prog.solo_answers _ _ _, fun hc => ?_, fun hc => ?_⟩
  · exact check_uncompiled platform elapsed h s h0 hc
  · exact check_judged platform elapsed h s h0 hc hspec

end Checks

/-! ### A check -/

def samplePlatform : Platform := ⟨"\n", fun _ => "", fun _ => ""⟩

def sampleConfiguration : CompilatorConfiguration :=
  ⟨"test", "C", "test", false, 0, (· ++ ".c"), fun _ => "compile", fun _ _ => "run", "version",
    fun _ => .ok ("test 1", some "full version")⟩

def sampleChecker : SimpleChecker :=
  ⟨4, fun _ expected actual => .ok (if expected = actual then .accepted else .wrongAnswer)⟩

def sampleService : CheckerService :=
  ⟨⟨"0", "runner", ["test"]⟩, [sampleConfiguration], [], [sampleChecker], by simp⟩

def sampleRequest : CheckRequest :=
  ⟨"42", "source", ⟨sampleConfiguration, "test 1", some "full version", none⟩, 4,
    [⟨1, [], [], some 30⟩, ⟨2, [], [0x61], some 70⟩], .fromSeconds 1, 128, true⟩

def sampleAnswer : RunnerResult := ⟨.completed, 0, [], [], ⟨0, 0, 0, 0, 0⟩⟩

theorem sample_proper : Proper sampleService sampleRequest sampleChecker where
  available := rfl
  supported := rfl
  registered := rfl
  answers _ expected actual := by
    by_cases h : expected = actual
    · exact ⟨.accepted, by simp [sampleChecker, h], Or.inl rfl⟩
    · exact ⟨.wrongAnswer, by simp [sampleChecker, h], Or.inr (Or.inl rfl)⟩
  numbers := by decide

theorem sample_judged : ∃ runs code, Judged sampleRequest sampleChecker (.ok sampleAnswer)
    (Prog.solo (sampleService.check samplePlatform sampleRequest 0) sampleService.initialFields
      fun _ => .ok sampleAnswer) runs code :=
  (verdict_law samplePlatform 0 sample_proper sampleService.initialFields (fun _ => sampleAnswer)
    fun _ => by decide).2.2 rfl

section Checks

variable {svc : CheckerService} (platform : Platform) {request : CheckRequest} (elapsed : TimeSpan)

/-- The score and the per-test results of a check, from its test runs. -/
structure Scored (request : CheckRequest) (result : CheckerResult) (runs : List TestRun) : Prop where
  nulls : result.score = none ∧ result.testResults = none ↔ ∀ test ∈ request.tests, test.score = none
  score : (∃ test ∈ request.tests, test.score ≠ none) → result.score =
    some ((runs.filter (·.verdict = .accepted)).map fun run => run.test.score.getD 0).sum
  testResults : (∃ test ∈ request.tests, test.score ≠ none) → ∃ text, result.testResults = some text ∧
    Lib.Text.split ';' text = runs.map fun run =>
      if run.verdict = .accepted then toString (run.test.score.getD 0) else run.verdict.name
  all : (∃ test ∈ request.tests, test.score ≠ none) → result.statusCode = 2 →
    result.score = some (request.tests.map (·.score.getD 0)).sum

theorem testField_noSeparator (test : CheckTest) (verdict : CheckerResultStatus) :
    ';' ∉ (testField test verdict).toList := by
  unfold testField
  split
  · exact Lib.Text.decimal_noSeparator (by decide) (by decide) _
  · cases verdict <;> decide

theorem scoreSum_eq {runs : List TestRun} {score : Int} (h : scoreSum runs = some score) :
    score = ((runs.filter (·.verdict = .accepted)).map fun run => run.test.score.getD 0).sum := by
  rw [checkedSum_eq h, sum_filter, List.map_map]
  congr 1
  refine List.map_congr_left fun run _ => ?_
  simp only [Function.comp_apply, testScore, decide_eq_true_eq]
  split <;> rfl

/-- All executed tests accepted: they are all tests. -/
theorem executed_all {allTests : Bool} {tests : List CheckTest} {runs : List TestRun}
    (h : Executed allTests tests runs) (ha : ∀ run ∈ runs, run.verdict = .accepted) :
    tests = runs.map TestRun.test := by
  obtain ⟨rest, htests, hrest⟩ := h
  have hnil : rest = [] := by
    cases allTests with
    | true => exact hrest
    | false =>
      obtain ⟨-, hnil | ⟨last, hlast, hne⟩⟩ := hrest
      · exact hnil
      · exact absurd (ha last (List.mem_of_getLast? hlast)) hne
  rw [htests, hnil, List.append_nil]

/-- Every check that returns after a completed compilation, whatever its request and the
    answers. -/
theorem check_scored {s : Fields} {a : Answers} {compileResult : RunnerResult} {result : CheckerResult}
    (h0 : a 0 = .ok compileResult) (hc : compileResult.status = .completed)
    (h : (Prog.solo (svc.check platform request elapsed) s a).result = .ok result) :
    ∃ checker runs, svc.findChecker request.checkerId = some checker ∧
      Executed request.allTests request.tests runs ∧ (∀ run ∈ runs, run.Follows checker) ∧
      (Prog.solo (svc.check platform request elapsed) s a).log =
        compileEntry request (a 0) :: requestsOf request runs ∧
      statusCodeOf runs = .ok result.statusCode ∧ Scored request result runs := by
  obtain ⟨checker, acc, havail, hsup, hchecker, hacc⟩ := check_returned platform elapsed h0 hc h
  obtain ⟨runs, hexec, hfollows, hcode, hsolo⟩ := check_runs platform elapsed havail hsup hchecker h0 hc hacc
  rw [hsolo] at h ⊢
  refine ⟨checker, runs, hchecker, hexec, hfollows, rfl, ?_⟩
  have hscores : request.tests.any (·.score.isSome) = true ↔ ∃ test ∈ request.tests, test.score ≠ none := by
    simp [Option.isSome_iff_ne_none]
  by_cases hany : request.tests.any (·.score.isSome) = true
  · simp only [if_pos hany] at h
    obtain ⟨test, htest, hscore⟩ := hscores.mp hany
    cases hsum : scoreSum runs with
    | none => rw [hsum] at h; cases h
    | some score =>
      rw [hsum] at h
      cases h
      have hscore' := scoreSum_eq hsum
      refine ⟨hcode, ⟨?_, fun hall => absurd (hall test htest) hscore⟩, fun _ => by rw [hscore'], fun _ => ?_,
        fun _ h2 => ?_⟩
      · rintro ⟨hn, -⟩; cases hn
      · refine ⟨_, rfl, ?_⟩
        have hne : runs ≠ [] := by
          rintro rfl
          rw [executed_all hexec fun run hr => (nomatch hr)] at htest
          cases htest
        refine Lib.Text.split_join (by simpa using hne) ?_
        intro field hfield
        obtain ⟨run, -, rfl⟩ := List.mem_map.mp hfield
        exact testField_noSeparator _ _
      · have haccepted := (statusCodeOf_two hcode).mp h2
        have hfilter : runs.filter (fun run => decide (run.verdict = .accepted)) = runs :=
          List.filter_eq_self.mpr fun run hr => by simp [haccepted run hr]
        rw [hscore', hfilter, executed_all hexec haccepted, List.map_map]
        rfl
  · simp only [if_neg hany] at h
    cases h
    have hnone : ¬∃ test ∈ request.tests, test.score ≠ none := fun hex => hany (hscores.mpr hex)
    refine ⟨hcode, ⟨fun _ test htest => ?_, fun _ => ⟨rfl, rfl⟩⟩, fun hex => absurd hex hnone,
      fun hex => absurd hex hnone, fun hex => absurd hex hnone⟩
    by_contra hscore
    exact hnone ⟨test, htest, hscore⟩

end Checks

end OlympSystem.Checker.Verdict
