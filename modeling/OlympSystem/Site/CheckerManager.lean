/-
  OlympSystem.Site.CheckerManager — `CheckerManager.TryCheckFromDB` and `CheckSubmission`:
  the queries, the request, and the unit of work of a check.

  A check tracks one submission. It is attached with the values it was read with and the
  claim wrote (`original`); the check changes `current` and may add a `CheckResult`; the
  save writes the columns that changed and inserts what was added.

  `Deployment` is what does not change while the site runs.
-/

import OlympSystem.Checker.Verdict
import OlympSystem.Site.ContestProblemService

namespace OlympSystem.Site

open Lib.Tables Lib.Query Lib.Program OlympSystem.Checker Domain

structure Deployment where
  service : ContestProblemService
  platform : Platform

/-- A registered checker, with `Compilators` as `LoadCompilators` left it. -/
structure ConnectedChecker where
  service : CheckerService
  compilators : List CompilatorInfo

/-- A submission with what the query of a claim includes. -/
structure Loaded where
  submission : SubmissionRow
  compilator : CompilatorRow
  problem : ProblemRow
  /-- The active tests of the problem, by number. -/
  tests : List TestRow
  contest : ContestRow

def staleness : Int := 2 * ticksPerMinute

namespace CheckerManager

/-! ## The claim -/

def available (checker : ConnectedChecker) : List (String × String) :=
  (checker.compilators.filter (·.error.isNone)).map fun x => (x.configuration.name, x.displayName)

def compilatorIds (db : Db) (checker : ConnectedChecker) : List Int :=
  ((db.compilators.rows.filter (·.isActive)).filter fun x =>
    match x.description with
    | none => false
    | some description => (available checker).contains (x.name, description)).map CompilatorRow.id

/-- Queued, or claimed before `span`. -/
def isPending (span : Int) (x : SubmissionRow) : Bool :=
  x.statusCode == 0 || (x.statusCode == 1 && decide (x.lastModification < span))

def activeTests (problem : ProblemRow) : List TestRow :=
  orderBy (byKey fun test => test.content.number) (problem.tests.filter (·.content.isActive))

def load (db : Db) (compilatorIds : List Int) (x : SubmissionRow) : Option Loaded :=
  match db.compilators.find? x.compilatorId, db.problems.find? x.problemId with
  | some compilator, some problem =>
    match db.contests.find? problem.contestId with
    | some contest =>
      if problem.isActive && compilatorIds.contains x.compilatorId && problem.tests.any (·.content.isActive) then
        some ⟨x, compilator, problem, activeTests problem, contest⟩
      else none
    | none => none
  | _, _ => none

def candidates (db : Db) (compilatorIds : List Int) (span : Int) : List Loaded :=
  (db.submissions.rows.filter (isPending span)).filterMap (load db compilatorIds)

/-- `OrderBy(CommitTime).FirstOrDefault()`: the candidate with this id, if none has an
    earlier commit time. The database may return any of those with the earliest. -/
def first (candidates : List Loaded) (id : Int) : Option Loaded :=
  match candidates.find? (·.submission.id == id) with
  | none => none
  | some loaded =>
    if candidates.all fun x => decide (loaded.submission.commitTime ≤ x.submission.commitTime) then some loaded
    else none

def claimUpdate (now : Int) : SubmissionUpdate where
  apply x := { x with statusCode := 1, lastModification := now }
  keeps _ := rfl
  problem _ := rfl

/-- The rows the claim of a loaded submission updates. -/
def isClaimed (loaded : Loaded) (span : Int) (x : SubmissionRow) : Bool :=
  x.id == loaded.submission.id && isPending span x

/-! ## The check -/

def createCheckRequest (culture : Culture) (checker : ConnectedChecker) (loaded : Loaded) :
    Except Exn CheckRequest :=
  let matching (x : CompilatorInfo) : Bool :=
    x.configuration.name == loaded.compilator.name && some x.displayName == loaded.compilator.description
  match singleOrDefault matching checker.compilators with
  | .error e => .error e
  | .ok none =>
    .error (.notSupported ("Compilator " ++ toString loaded.compilator.id ++ " (" ++ loaded.compilator.name ++
      ") has no matching configuration on runner " ++ checker.service.runner.id))
  | .ok (some compilator) =>
    let problem := loaded.problem
    .ok {
      name := toString loaded.submission.id
      source := loaded.submission.text
      compilator := compilator
      checkerId := problem.checkerId
      tests := loaded.tests.map fun x => ⟨x.content.number, x.content.input, x.content.output, x.content.score⟩
      timeLimit := .fromSeconds (if compilator.configuration.useSlowTimeLimit then problem.slowTimeLimit
        else problem.timeLimit)
      memoryLimitMb := problem.memoryLimit
      allTests := loaded.contest.isSchool culture }

/-- What the request for a submission is made of, besides its configuration. -/
structure MadeFor (culture : Culture) (loaded : Loaded) (request : CheckRequest) : Prop where
  source : request.source = loaded.submission.text
  checkerId : request.checkerId = loaded.problem.checkerId
  tests : request.tests = loaded.tests.map fun x =>
    ⟨x.content.number, x.content.input, x.content.output, x.content.score⟩
  timeLimit : request.timeLimit = .fromSeconds (if request.compilator.configuration.useSlowTimeLimit then
    loaded.problem.slowTimeLimit else loaded.problem.timeLimit)
  memoryLimitMb : request.memoryLimitMb = loaded.problem.memoryLimit
  allTests : request.allTests = loaded.contest.isSchool culture

theorem createCheckRequest_made {culture : Culture} {checker : ConnectedChecker} {loaded : Loaded}
    {request : CheckRequest} (h : createCheckRequest culture checker loaded = .ok request) :
    MadeFor culture loaded request := by
  unfold createCheckRequest at h
  simp only at h
  split at h
  · cases h
  · cases h
  · cases h
    exact ⟨rfl, rfl, rfl, rfl, rfl, rfl⟩

/-- A check under way: what it was started with and its unit of work. -/
structure Check where
  checker : ConnectedChecker
  loaded : Loaded
  original : SubmissionRow
  current : SubmissionRow
  result : Option CheckResultRow

/-- The claimed submission, attached. -/
def attach (checker : ConnectedChecker) (loaded : Loaded) (now : Int) : Check :=
  let submission := { loaded.submission with statusCode := 1, lastModification := now }
  ⟨checker, loaded, submission, submission, none⟩

namespace Check

/-- The end of the try block: the result is added and copied to the submission. -/
def succeeded (check : Check) (checkTime : Int) (result : CheckerResult) : Check :=
  { check with
    result := some ⟨check.loaded.submission.id, checkTime, result.statusCode, result.log, result.score,
      result.testResults⟩
    current := { check.current with
      statusCode := result.statusCode
      score := result.score
      scoresByTest := result.testResults } }

def failed (check : Check) : Check := { check with current := { check.current with statusCode := 0 } }

/-- What the checker gives for the request of the check, when nobody else throws. -/
def outcome (deployment : Deployment) (check : Check) (answers : Verdict.Answers) (elapsed : TimeSpan) :
    Except Exn CheckerResult :=
  match createCheckRequest deployment.service.culture check.checker check.loaded with
  | .error e => .error e
  | .ok request =>
    (Prog.solo (check.checker.service.check deployment.platform request elapsed)
      check.checker.service.initialFields answers).result

theorem outcome_ok {deployment : Deployment} {check : Check} {answers : Verdict.Answers} {elapsed : TimeSpan}
    {result : CheckerResult} (h : outcome deployment check answers elapsed = .ok result) :
    ∃ request, createCheckRequest deployment.service.culture check.checker check.loaded = .ok request ∧
      (Prog.solo (check.checker.service.check deployment.platform request elapsed)
        check.checker.service.initialFields answers).result = .ok result := by
  unfold outcome at h
  split at h
  · cases h
  · next request hrequest => exact ⟨request, hrequest, h⟩

theorem outcome_eq {deployment : Deployment} {check : Check} {request : CheckRequest}
    (h : createCheckRequest deployment.service.culture check.checker check.loaded = .ok request)
    (answers : Verdict.Answers) (elapsed : TimeSpan) :
    outcome deployment check answers elapsed =
      (Prog.solo (check.checker.service.check deployment.platform request elapsed)
      check.checker.service.initialFields answers).result := by
  unfold outcome
  rw [h]

def judge (deployment : Deployment) (check : Check) (checkTime : Int) (answers : Verdict.Answers)
    (elapsed : TimeSpan) : Check :=
  match outcome deployment check answers elapsed with
  | .error _ => check.failed
  | .ok result => check.succeeded checkTime result

def stamp (check : Check) (now : Int) : Check :=
  { check with current := { check.current with lastModification := now } }

/-- What the save writes to the submission's row: the columns that changed. -/
def write (check : Check) (stored : SubmissionRow) : SubmissionRow :=
  { stored with
    statusCode := saved check.original.statusCode check.current.statusCode stored.statusCode
    lastModification := saved check.original.lastModification check.current.lastModification stored.lastModification
    score := saved check.original.score check.current.score stored.score
    scoresByTest := saved check.original.scoresByTest check.current.scoresByTest stored.scoresByTest }

def writeUpdate (check : Check) : SubmissionUpdate where
  apply := check.write
  keeps _ := rfl
  problem _ := rfl

def saveChanges (check : Check) (db : Db) : Db :=
  let db := db.updateSubmissions (check.writeUpdate.restrict (·.id == check.original.id))
  match check.result with
  | none => db
  | some row => db.addCheckResult row

end Check

end CheckerManager

end OlympSystem.Site
