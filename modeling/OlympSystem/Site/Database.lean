/-
  OlympSystem.Site.Database — the tables that imports, retests and the queue read and
  write (`Olymp.Domain/Models`, `OlympContext.cs`).

  The tests of a problem stand in its row, as in the entity: they are loaded with it and
  have no life of their own. `submissions_of` is the foreign key of a submission's
  problem. Rows of `checkResults` stand in the order they were added.
-/

import OlympSystem.Checker.Runner
import OlympSystem.Domain.Models
import OlympSystem.Lib.Tables

namespace OlympSystem.Site

open Lib.Tables OlympSystem.Checker

structure ContestRow where
  id : Int
  abbr : String
  deriving DecidableEq, Repr

def ContestRow.isSchool (culture : Domain.Culture) (contest : ContestRow) : Bool :=
  culture.startsWith contest.abbr "school"

structure TestContent where
  number : Int
  input : Bytes
  output : Bytes
  isOpen : Bool
  isActive : Bool
  score : Option Int
  comment : Option String
  deriving DecidableEq, Repr

structure TestRow where
  id : Int
  content : TestContent
  deriving DecidableEq, Repr

structure ProblemRow where
  id : Int
  number : Int
  name : String
  text : Option String
  isActive : Bool
  timeLimit : Int
  slowTimeLimit : Int
  memoryLimit : Int
  contestId : Int
  checkerId : Int
  tests : List TestRow
  deriving DecidableEq, Repr

structure CompilatorRow where
  id : Int
  name : String
  description : Option String
  isActive : Bool
  deriving DecidableEq, Repr

structure SubmissionRow where
  id : Int
  /-- `Text`, decoded from `SourceCode`. -/
  text : String
  statusCode : Int
  commitTime : Int
  lastModification : Int
  score : Option Int
  scoresByTest : Option String
  problemId : Int
  compilatorId : Int
  deriving DecidableEq, Repr

structure CheckResultRow where
  submissionId : Int
  checkTime : Int
  statusCode : Int
  log : String
  score : Option Int
  testResults : Option String
  deriving DecidableEq, Repr

structure Db where
  contests : Table ContestRow ContestRow.id
  compilators : Table CompilatorRow CompilatorRow.id
  /-- The ids of the table of checkers. -/
  checkers : List Int
  problems : Table ProblemRow ProblemRow.id
  nextTest : Int
  submissions : Table SubmissionRow SubmissionRow.id
  checkResults : List CheckResultRow
  submissions_of : ∀ s ∈ submissions.rows, ∃ p ∈ problems.rows, p.id = s.problemId

/-! ## Writes -/

/-- An update of submissions that leaves their problem alone. -/
structure SubmissionUpdate extends Update SubmissionRow.id where
  problem : ∀ s, (apply s).problemId = s.problemId

def SubmissionUpdate.restrict (u : SubmissionUpdate) (p : SubmissionRow → Bool) : SubmissionUpdate where
  toUpdate := u.toUpdate.restrict p
  problem s := by
    rw [Update.restrict_apply]
    split
    · exact u.problem s
    · rfl

theorem SubmissionUpdate.restrict_apply (u : SubmissionUpdate) (p : SubmissionRow → Bool) (s : SubmissionRow) :
    (u.restrict p).apply s = if p s then u.apply s else s := rfl

namespace Db

def updateSubmissions (db : Db) (u : SubmissionUpdate) : Db :=
  { db with
    submissions := db.submissions.update u.toUpdate
    submissions_of := by
      intro s hs
      obtain ⟨s', hs', rfl⟩ := List.mem_map.mp hs
      rw [u.problem]; exact db.submissions_of s' hs' }

def updateProblems (db : Db) (u : Update ProblemRow.id) : Db :=
  { db with
    problems := db.problems.update u
    submissions_of := by
      intro s hs
      obtain ⟨p, hp, hid⟩ := db.submissions_of s hs
      exact ⟨u.apply p, List.mem_map_of_mem hp, by rw [u.keeps, hid]⟩ }

def insertProblem {β : Type} (db : Db) (m : Maker β ProblemRow.id) (b : β) : Db :=
  { db with
    problems := db.problems.insert m b
    submissions_of := by
      intro s hs
      obtain ⟨p, hp, hid⟩ := db.submissions_of s hs
      exact ⟨p, List.mem_append_left _ hp, hid⟩ }

def insertSubmission {β : Type} (db : Db) (m : Maker β SubmissionRow.id) (b : β)
    (h : ∃ p ∈ db.problems.rows, p.id = (m.make b db.submissions.next).problemId) : Db :=
  { db with
    submissions := db.submissions.insert m b
    submissions_of := by
      intro s hs
      rcases List.mem_append.mp hs with hs | hs
      · exact db.submissions_of s hs
      · rw [List.mem_singleton.mp hs]; exact h }

def addCheckResult (db : Db) (row : CheckResultRow) : Db := { db with checkResults := db.checkResults ++ [row] }

/-- A row that an update does not select stays. -/
theorem mem_updateSubmissions {db : Db} {u : SubmissionUpdate} {p : SubmissionRow → Bool} {s : SubmissionRow}
    (hs : s ∈ db.submissions.rows) (hp : p s = false) :
    s ∈ (db.updateSubmissions (u.restrict p)).submissions.rows :=
  List.mem_map.mpr ⟨s, hs, by rw [SubmissionUpdate.restrict_apply, hp]; rfl⟩

/-- The problems with these ids have a submission in status 1. -/
def isBusy (db : Db) (problemIds : List Int) : Bool :=
  db.submissions.rows.any fun x => problemIds.contains x.problemId && x.statusCode == 1

theorem isBusy_eq_false {db : Db} {problemIds : List Int} :
    db.isBusy problemIds = false ↔ ∀ s ∈ db.submissions.rows, s.problemId ∈ problemIds → s.statusCode ≠ 1 := by
  simp [isBusy]

/-- No submission belongs to a problem that is not there yet. -/
theorem submission_problem_lt {db : Db} {s : SubmissionRow} (hs : s ∈ db.submissions.rows) :
    s.problemId < db.problems.next := by
  obtain ⟨p, hp, hid⟩ := db.submissions_of s hs
  rw [← hid]; exact db.problems.below p hp

end Db

end OlympSystem.Site
