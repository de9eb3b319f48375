/-
  OlympSystem.Site.ContestProblemService — `ContestProblemService.cs`: the import of an
  archive, and the retests.

  Each operation reads under the gate and then writes once: an import by `SaveChanges`, a
  retest by `ExecuteUpdate`. What it reads it computes into a plan (`Tracker`, or the
  problems of a retest), or it throws; the write applies the plan.

  The import's unit of work is the `Tracker`: the problems it loaded, each with the values
  it was loaded with, and the problems it added. `saveChanges` writes the columns that
  changed, removes and adds tests, and adds problems, all or nothing.

  `fault` says at which await of a call something outside throws: the gate's wait is
  cancelled, or the database fails.
-/

import OlympSystem.Checker.ResultStatus
import OlympSystem.Site.Database
import OlympSystem.Site.ProblemArchive

namespace OlympSystem.Site

open Lib.Tables Lib.Dictionaries Lib.Query OlympSystem.Checker ProblemArchive

structure ContestProblemService where
  culture : Domain.Culture
  options : ContestImportOptions
  runtime : Runtime
  /-- The ids of the site's checkers. -/
  checkers : List Int

inductive Await where
  | enter
  | contest
  | problems
  | idle
  | checkers
  | save
  deriving DecidableEq, Repr

abbrev Faults := Await → Option Exn

def noFaults : Faults := fun _ => none

/-- The outcome of an await. -/
def awaiting {α : Type} (fault : Faults) (at_ : Await) (outcome : Except Exn α) : Except Exn α :=
  match fault at_ with
  | some e => .error e
  | none => outcome

def busyMessage : String :=
  "A related submission is still being checked. Please try again after checking finishes."

def ensureIdle (db : Db) (problemIds : List Int) : Except Exn Unit :=
  if db.isBusy problemIds then .error (.invalidData busyMessage []) else .ok ()

/-! ## The unit of work of an import -/

structure TrackedProblem where
  /-- The values it was loaded with. -/
  original : ProblemRow
  current : ProblemRow
  removed : List TestRow
  added : List TestContent

structure Tracker where
  existing : List TrackedProblem
  added : List TrackedProblem

/-- A problem a query loaded with its tests. -/
def TrackedProblem.load (row : ProblemRow) : TrackedProblem := ⟨row, row, [], []⟩

def assign (row : ProblemRow) (data : ProblemManifest) : ProblemRow :=
  { row with
    number := data.number
    name := data.name
    timeLimit := data.timeLimit
    slowTimeLimit := data.slowTimeLimit.getD data.timeLimit
    memoryLimit := data.memoryLimit
    checkerId := data.checkerId
    isActive := data.isActive }

/-- The score of test number `number`, the `i`th of `count`. -/
def importedScore (isSchool : Bool) (data : ProblemManifest) (count i : Nat) (number : Int) : Option Int :=
  match data.scores with
  | some scores => some (lookupD scores number)
  | none =>
    if isSchool then
      let closedCount := (count : Int) - data.openTestCount
      some (if (i : Int) < data.openTestCount then 0
        else Int.tdiv 100 closedCount + if (count : Int) - Int.tmod 100 closedCount ≤ i then 1 else 0)
    else none

def importedTests (isSchool : Bool) (item : ImportedProblem) : List TestContent :=
  item.tests.mapIdx fun i test =>
    { number := test.number
      input := test.input
      output := test.output
      isOpen := decide ((i : Int) < item.manifest.openTestCount)
      isActive := true
      score := importedScore isSchool item.manifest item.tests.length i test.number
      comment := none }

/-- A problem of the archive into a loaded one: its tests are removed and replaced. -/
def TrackedProblem.replace (isSchool : Bool) (item : ImportedProblem) (problem : TrackedProblem) : TrackedProblem :=
  { problem with
    current := assign { problem.current with tests := [] } item.manifest
    removed := problem.removed ++ problem.current.tests
    added := importedTests isSchool item }

def newProblem (isSchool : Bool) (contestId : Int) (item : ImportedProblem) : TrackedProblem :=
  let blank : ProblemRow :=
    { id := 0, number := 0, name := item.manifest.name, text := none, isActive := false, timeLimit := 0,
      slowTimeLimit := 0, memoryLimit := 0, contestId := contestId, checkerId := 0, tests := [] }
  { original := blank, current := assign blank item.manifest, removed := [], added := importedTests isSchool item }

def singleOrDefault {α : Type} (p : α → Bool) (l : List α) : Except Exn (Option α) :=
  match l.filter p with
  | [] => .ok none
  | [a] => .ok (some a)
  | _ => .error (.invalidOperation "Sequence contains more than one matching element")

def hasNumber (number : Int) (problem : TrackedProblem) : Bool := problem.current.number == number

/-- One pass of the loop over the archive's problems. The loaded problem with the number
    is one, so it is the one that is replaced. -/
def importProblem (isSchool : Bool) (contestId : Int) (supported : List Int) (tracker : Tracker)
    (item : ImportedProblem) : Except Exn Tracker :=
  let data := item.manifest
  if !supported.contains data.checkerId then
    .error (.invalidData "{0}/problem.json: checkerId={1} is not supported." [item.folder, toString data.checkerId])
  else if isSchool && data.scores.isNone && data.openTestCount == (item.tests.length : Int) then
    .error (.invalidData "{0}/problem.json: a non-example test is required to distribute scores." [item.folder])
  else
    match singleOrDefault (hasNumber data.number) tracker.existing with
    | .error e => .error e
    | .ok none => .ok { tracker with added := tracker.added ++ [newProblem isSchool contestId item] }
    | .ok (some _) =>
      .ok { tracker with
        existing := tracker.existing.map fun problem =>
          if hasNumber data.number problem then problem.replace isSchool item else problem }

def importProblems (isSchool : Bool) (contestId : Int) (supported : List Int) :
    Tracker → List ImportedProblem → Except Exn Tracker
  | tracker, [] => .ok tracker
  | tracker, item :: items => do
    let tracker ← importProblem isSchool contestId supported tracker item
    importProblems isSchool contestId supported tracker items

/-! ## `SaveChanges` -/

def numbered (next : Int) (tests : List TestContent) : List TestRow := tests.mapIdx fun i content => ⟨next + i, content⟩

/-- The stored row of a tracked problem after the save. -/
def TrackedProblem.write (problem : TrackedProblem) (nextTest : Int) (stored : ProblemRow) : ProblemRow where
  id := stored.id
  number := saved problem.original.number problem.current.number stored.number
  name := saved problem.original.name problem.current.name stored.name
  text := saved problem.original.text problem.current.text stored.text
  isActive := saved problem.original.isActive problem.current.isActive stored.isActive
  timeLimit := saved problem.original.timeLimit problem.current.timeLimit stored.timeLimit
  slowTimeLimit := saved problem.original.slowTimeLimit problem.current.slowTimeLimit stored.slowTimeLimit
  memoryLimit := saved problem.original.memoryLimit problem.current.memoryLimit stored.memoryLimit
  contestId := saved problem.original.contestId problem.current.contestId stored.contestId
  checkerId := saved problem.original.checkerId problem.current.checkerId stored.checkerId
  tests := stored.tests.filter (fun test => !(problem.removed.map TestRow.id).contains test.id) ++
    numbered nextTest problem.added

def TrackedProblem.writeUpdate (problem : TrackedProblem) (nextTest : Int) : Update ProblemRow.id where
  apply := problem.write nextTest
  keeps _ := rfl

def saveExisting (db : Db) (problem : TrackedProblem) : Db :=
  { db.updateProblems ((problem.writeUpdate db.nextTest).restrict fun row => row.id == problem.original.id) with
    nextTest := db.nextTest + problem.added.length }

def addedProblem : Maker (TrackedProblem × Int) ProblemRow.id where
  make b id := { b.1.current with id := id, tests := numbered b.2 b.1.added }
  keyed _ _ := rfl

def saveAdded (db : Db) (problem : TrackedProblem) : Db :=
  { db.insertProblem addedProblem (problem, db.nextTest) with
    nextTest := db.nextTest + problem.added.length }

def saveChanges (db : Db) (tracker : Tracker) : Db :=
  tracker.added.foldl saveAdded (tracker.existing.foldl saveExisting db)

namespace ContestProblemService

variable (service : ContestProblemService)

/-! ## `ImportAsync` -/

def supported (db : Db) : List Int := service.checkers.filter db.checkers.contains

/-- The problems of the contest that the archive has numbers of. -/
def existingProblems (db : Db) (contestId : Int) (imported : List ImportedProblem) : List ProblemRow :=
  db.problems.rows.filter fun x => x.contestId == contestId && (imported.map (·.manifest.number)).contains x.number

/-- The import between entering the gate and `SaveChanges`. -/
def prepareImport (fault : Faults) (db : Db) (contestId : Int) (imported : List ImportedProblem) :
    Except Exn Tracker := do
  let contest ← awaiting fault .contest (single (·.id == contestId) db.contests.rows)
  let existing ← awaiting fault .problems (.ok (existingProblems db contestId imported))
  if (groupBy ProblemRow.number existing).any fun group => decide (1 < group.2.length) then
    .error (.invalidData "The contest already contains problems with duplicate numbers." [])
  else do
    awaiting fault .idle (ensureIdle db (existing.map ProblemRow.id))
    let supported ← awaiting fault .checkers (.ok (service.supported db))
    importProblems (contest.isSchool service.culture) contestId supported
      ⟨existing.map TrackedProblem.load, []⟩ imported

def importAsync (fault : Faults) (db : Db) (contestId : Int) (source : Except Exn (List ZipEntry)) :
    Except Exn Nat × Db :=
  match readAsync service.options service.runtime source with
  | .error e => (.error e, db)
  | .ok imported =>
    match awaiting fault .enter (.ok ()) with
    | .error e => (.error e, db)
    | .ok () =>
      match service.prepareImport fault db contestId imported with
      | .error e => (.error e, db)
      | .ok tracker =>
        match awaiting fault .save (.ok (saveChanges db tracker)) with
        | .error e => (.error e, db)
        | .ok db => (.ok imported.length, db)

end ContestProblemService

/-! ## Retests -/

/-- `SetProperty` of a retest: back to the queue, without a result. -/
def requeue (now : Int) : SubmissionUpdate where
  apply s := { s with statusCode := 0, score := none, scoresByTest := none, lastModification := now }
  keeps _ := rfl
  problem _ := rfl

/-- `RetestAsync` between entering the gate and its update. -/
def prepareRetest (db : Db) (contestId problemId : Int) : Except Exn Unit :=
  match db.problems.rows.find? fun x => x.id == problemId && x.contestId == contestId with
  | none => .error (.invalidData "The problem was not found in this contest." [])
  | some problem =>
    if !problem.isActive then .error (.invalidData "The problem must be active for retesting." [])
    else ensureIdle db [problemId]

def retested (problemId : Int) (exceptAccepted : Bool) (x : SubmissionRow) : Bool :=
  x.problemId == problemId && x.statusCode != 0 && x.statusCode != 1 && (!exceptAccepted || x.statusCode != 2)

def retest (db : Db) (now : Int) (problemId : Int) (exceptAccepted : Bool) : Db :=
  db.updateSubmissions ((requeue now).restrict (retested problemId exceptAccepted))

/-- `RetestCompilationErrorsAsync` between entering the gate and its update. -/
def prepareRetestCompilationErrors (db : Db) (contestId : Int) : Except Exn (List Int) :=
  let problemIds := (db.problems.rows.filter fun x => x.contestId == contestId && x.isActive).map ProblemRow.id
  match ensureIdle db problemIds with
  | .error e => .error e
  | .ok () => .ok problemIds

def hasCompilationError (problemIds : List Int) (x : SubmissionRow) : Bool :=
  problemIds.contains x.problemId && decide (makeStatusCode .compilationError none = .ok x.statusCode)

def retestCompilationErrors (db : Db) (now : Int) (problemIds : List Int) : Db :=
  db.updateSubmissions ((requeue now).restrict (hasCompilationError problemIds))

end OlympSystem.Site
