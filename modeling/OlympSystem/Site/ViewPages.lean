/-
  OlympSystem.Site.ViewPages — the pages that show contests, problems, submissions and
  messages (`Pages/Contests`, `Pages/Problems`, `Pages/Submissions`), and the handler
  that says whose submissions a user may see (`SubmissionAuthorizationHandler.cs`).

  `Content` has the columns these pages read besides those of `Db`: for each row, by its id.
  A `Response` has what the view prints. A page is made at one moment, and nothing fails
  meanwhile; somebody who is not signed in is no `Principal`.
-/

import OlympSystem.Domain.Freeze
import OlympSystem.Domain.ScoresByTest
import OlympSystem.Lib.Paths
import OlympSystem.Site.ErrorsPage
import OlympSystem.Site.TeamMembers
import OlympSystem.Site.ContestPages

namespace OlympSystem.Site.Accounts.ViewPages

open Lib.Query Lib.Tables Lib.Text Lib.Transactions ContestPages
open OlympSystem.Checker (Bytes)
open CompetitorManagement (calm getMembers loadMembers)

/-! ## Tables -/

structure ContestColumns where
  name : String
  description : Option String
  problemShowTime : Option Int
  freezeTime : Option Int
  problemPdf : Option Bytes
  testZip : Option Bytes
  finalTableText : Option String
  officialTableText : Option String

structure SubmissionColumns where
  isHidden : Bool
  description : Option String
  score : Option Int
  scoresByTest : Option String

structure Content where
  db : Db
  contest : Int → ContestColumns
  submission : Int → SubmissionColumns
  /-- `SourceExtension` of a compilator. -/
  sourceExtension : Int → String
  problem_of : ∀ s ∈ db.history.submissions.rows, ∃ p ∈ db.problems.rows, p.id = s.problemId
  /-- The store numbers users from one. -/
  users_from_one : ∀ account ∈ db.users.rows, 1 ≤ account.id

structure Host where
  culture : Domain.Culture
  ms : Domain.Standing.Milliseconds
  classes : CharClasses
  /-- `LIKE` of the database. -/
  contains : String → String → Bool
  /-- `new DateTime(2010, 1, 1)` and `new DateTime(2023, 03, 01)` in the time zone of the host. -/
  january2010 : Int
  march2023 : Int
  /-- `Date.ToShortDateString()` of a moment. -/
  shortDate : Int → String
  /-- The claim `ContestManage` for a contest. -/
  managesContest : Principal → Int → Bool
  /-- `IndexOf` of the current culture. -/
  indexOf : String → String → Option Nat
  isSeparator : Char → Bool

/-! ## The contest as the standings read it -/

def domainUser : Account → Domain.User
  | .olympUser u => ⟨u.id, u.name, u.isDisqualified, u.isHidden, none⟩
  | .competitor c => ⟨c.id, c.name, c.isDisqualified, c.isHidden, some ⟨c.isApproved, c.isOutOfCompetition⟩⟩

def domainCompetitor (c : Competitor) : Domain.Competitor :=
  ⟨domainUser (.competitor c), ⟨c.isApproved, c.isOutOfCompetition⟩, rfl⟩

namespace Content

variable (site : Content)

def includeUser (s : Submission) : Option Domain.Submission :=
  (site.db.users.find? s.userId).map fun account =>
    ⟨s.id, s.statusCode, (site.submission s.id).isHidden, s.commitTime, (site.submission s.id).score,
      domainUser account, s.problemId⟩

theorem includeUser_problem {s : Submission} {d : Domain.Submission} (h : site.includeUser s = some d) :
    d.problemId = s.problemId := by
  obtain ⟨account, -, rfl⟩ := Option.map_eq_some_iff.mp h
  rfl

def submissionsOf (problemId : Int) :
    List Submission := site.db.history.submissions.rows.filter (·.problemId == problemId)

def domainProblem (p : ProblemRow) : Domain.Problem where
  id := p.id
  number := p.number
  submissions := (site.submissionsOf p.id).filterMap site.includeUser
  submissions_of := by
    intro d hd
    obtain ⟨s, hs, hd⟩ := List.mem_filterMap.mp hd
    rw [site.includeUser_problem hd]
    simpa using (List.mem_filter.mp hs).2

def problemsOf (contestId : Int) : List ProblemRow := site.db.problems.rows.filter (·.contestId == contestId)

theorem problemsOf_ids (contestId : Int) :
    (((site.problemsOf contestId).map site.domainProblem).map Domain.Problem.id).Nodup := by
  rw [List.map_map]
  exact site.db.problems.keys.sublist (List.filter_sublist.map _)

/-- `Include` of the competitors, the problems and their submissions with the users. A
    collection holds so many elements at most. -/
def domainContest (contest : Contest) : Option Domain.Contest :=
  if h : ((site.problemsOf contest.id).map site.domainProblem).length ≤ Domain.maxCount then
    some {
      abbr := contest.abbr
      startTime := contest.startTime
      endTime := contest.endTime
      freezeTime := (site.contest contest.id).freezeTime
      problems := (site.problemsOf contest.id).map site.domainProblem
      competitors := (site.db.competitors.filter (·.contestId == contest.id)).map domainCompetitor
      problem_ids := site.problemsOf_ids contest.id
      problem_count := h }
  else none

end Content

/-! ## Who may look -/

def isStaff (viewer : Option Principal) : Bool := viewer.any fun principal => principal.isAdmin || principal.isJury

/-- `!IsHidden && (Now >= StartTime || Now >= ProblemShowTime)`. -/
def allowDownloadProblems (now : Int) (contest : Contest) (columns : ContestColumns) : Bool :=
  !contest.isHidden && (decide (contest.startTime ≤ now) || columns.problemShowTime.any (decide <| · ≤ now))

def allowShowStanding (now : Int) (contest : Contest) : Bool := !contest.isHidden && decide (contest.startTime ≤ now)

def allowDownloadTests (now : Int) (contest : Contest) : Bool :=
  !contest.isHidden && contest.isOpen && decide (contest.endTime < now)

def allowSubmitSolution (now : Int) (contest : Contest) : Bool :=
  !contest.isHidden && decide (contest.startTime ≤ now) && (decide (now ≤ contest.endTime) || contest.isOpen)

def canManage (host : Host) (viewer : Option Principal) (contestId : Int) : Bool :=
  viewer.any fun principal =>
    (principal.isAdmin || principal.isJury) && (principal.isAdmin || host.managesContest principal contestId)

/-- `Competitors.Where(x => x.Members.Any(...)).Select(x => x.Id).Contains(userId)`. -/
def isMemberOf (db : Db) (viewerId userId : Int) : Bool :=
  ((db.competitors.filter (db.isMember viewerId)).map fun c => c.id).contains userId

def mayView (db : Db) (principal : Principal) (userId : Int) : Bool :=
  principal.isAdmin || principal.isJury || principal.userId == userId || isMemberOf db principal.userId userId

/-- `AuthorizeAsync` for a contest at one moment. -/
def mayTakePart (now : Int) (db : Db) (principal : Principal) (contest : Contest) (requirement : OperationName) :
    Except OperationExn Bool :=
  (authorizeAsync principal contest requirement (calm now) ⟨db, 0⟩).1

/-! ## Responses -/

/-- A contest on the list: its heading, which of its links are there, and its description. -/
structure ContestItem where
  abbr : String
  name : String
  date : String
  edit : Bool
  competitors : Bool
  registration : Bool
  standing : Bool
  officialStanding : Bool
  statements : Bool
  tests : Bool
  submits : Bool
  description : Option String
  deriving DecidableEq, Repr

structure StandingView where
  contest : Contest
  name : String
  freezeTime : Option Int
  isFrozen : Bool
  isOfficial : Bool
  /-- Number and name of each problem, in the heading. -/
  problems : List (Int × String)
  rows : List Domain.Freeze.RowView
  /-- The names of the members, for the teams of an ACM contest. -/
  members : List (List String)

structure MessageView where
  problem : Option (Int × String)
  userText : Option String
  juryText : Option String
  sendTime : Option Int
  deriving DecidableEq, Repr

structure OwnView where
  id : Int
  commitTime : Int
  problem : Int × String
  compilator : Option (String × Option String)
  statusCode : Int
  score : Option Int
  scoresByTest : Option String
  deriving DecidableEq, Repr

structure SubmitsView where
  contest : Contest
  problems : List (Int × Int × String)
  compilators : List (Int × Option String)
  /-- The compiler that is preselected. -/
  compilatorId : Option Int
  submissions : List OwnView
  standing : List Domain.Freeze.CellView
  messages : List MessageView
  commonMessageCount : Nat

structure ProblemView where
  contestName : String
  problem : Int × String
  timeLimit : Int
  memoryLimit : Int
  text : Option String
  examples : List (Bytes × Bytes)
  deriving DecidableEq, Repr

structure ListedView where
  commitTime : Int
  user : String
  organization : Option String
  problem : Int × Int × String
  contest : String
  compilator : String × Option String
  statusCode : Int
  deriving DecidableEq, Repr

inductive Response where
  /-- To the page for signing in. -/
  | challenge
  | notFound
  | forbid
  | contests (canCreate : Bool) (items : List ContestItem)
  | file (content : Bytes) (contentType fileName : String)
  /-- A table that was made elsewhere stands in for the standings. -/
  | table (contest : Contest) (name text : String)
  | standing (view : StandingView)
  | submits (view : SubmitsView)
  | sendMessage (contest : Contest) (name : String) (problems : List (Int × Int × String))
  | problem (view : ProblemView)
  | submissions (page : Int) (rows : List ListedView)
  | code (text lang : String)
  | errors (text : String)

/-! ## Pages -/

namespace Content

variable (site : Content) (host : Host) (now : Int) (viewer : Option Principal)

def contestItem (contest : Contest) : ContestItem :=
  let columns := site.contest contest.id
  let allowStanding := allowShowStanding now contest || isStaff viewer
  { abbr := contest.abbr
    name := columns.name
    date := host.shortDate contest.startTime
    edit := canManage host viewer contest.id
    competitors := decide (host.january2010 < contest.startTime)
    registration := decide (now < contest.endTime)
    standing := allowStanding
    officialStanding := allowStanding && (columns.finalTableText.isNone || columns.officialTableText.isSome)
    statements := columns.problemPdf.isSome && (allowDownloadProblems now contest columns || isStaff viewer)
    tests := columns.testZip.isSome && (allowDownloadTests now contest || isStaff viewer)
    submits := allowSubmitSolution now contest || isStaff viewer
    description := columns.description }

def contests : Response :=
  let contests := orderBy (descending (byKey Contest.startTime))
    (site.db.contests.rows.filter fun contest => !contest.isHidden || isStaff viewer)
  .contests (isStaff viewer) (contests.map (site.contestItem host now viewer))

def downloadProblems (id : Int) : Response :=
  match site.db.contests.find? id with
  | none => .notFound
  | some contest =>
    match (site.contest id).problemPdf with
    | none => .notFound
    | some pdf =>
      if allowDownloadProblems now contest (site.contest id) || isStaff viewer then
        .file pdf "application/pdf" (contest.abbr ++ "problems.pdf")
      else .forbid

def downloadTests (id : Int) : Response :=
  match site.db.contests.find? id with
  | none => .notFound
  | some contest =>
    match (site.contest id).testZip with
    | none => .notFound
    | some zip =>
      if allowDownloadTests now contest || isStaff viewer then
        .file zip "application/zip" (contest.abbr ++ "tests.zip")
      else .forbid

/-- `team.MemberNames!` of a row whose user is a team. -/
def memberNames (userId : Int) : Except OperationExn (List String) :=
  match site.db.competitors.find? (·.id == userId) with
  | none => .ok []
  | some team =>
    match getMembers team (loadMembers site.db team) with
    | .error e => .error e
    | .ok none => .error (.other (.argument "Value cannot be null." "values"))
    | .ok (some members) => .ok (members.map Prod.fst)

/-- `_StandingTable.cshtml`, which has the standings computed. -/
def standingTable (contest : Contest) (official : Bool) (startTime : Option Int) : Except OperationExn Response :=
  match site.domainContest contest with
  | none => .error (.other (.external "OutOfMemoryException"))
  | some standing =>
    let notFreeze := isStaff viewer
    match (Domain.Standing.newStanding host.culture host.ms now standing (!official) official notFreeze startTime).map
        (List.map Domain.Freeze.rowView) with
    | .error e => .error (.other e)
    | .ok rows => do
      let members ← if contest.isAcm host.culture then rows.mapM fun row => site.memberNames row.user.id else .ok []
      return .standing {
        contest := contest
        name := (site.contest contest.id).name
        freezeTime := (site.contest contest.id).freezeTime
        isFrozen := standing.isFreeze now && !notFreeze
        isOfficial := official
        problems := (orderBy (byKey fun p : ProblemRow => p.number) (site.problemsOf contest.id)).map fun p =>
          (p.number, p.name)
        rows := rows
        members := members }

def standing (id : Int) (official : Bool) (startTime : Option Int) : Except OperationExn Response :=
  match site.db.contests.find? id with
  | none => .ok .notFound
  | some contest =>
    if allowShowStanding now contest || isStaff viewer then
      match if official then (site.contest id).officialTableText else (site.contest id).finalTableText with
      | some text => .ok (.table contest (site.contest id).name text)
      | none => site.standingTable host now viewer contest official startTime
    else .ok .forbid

def problemName (p : ProblemRow) : Int × Int × String := (p.id, p.number, p.name)

/-- `x.Problem == null || x.Problem.IsActive`, and the message is common or the user's own. -/
def isForUser (problems : List ProblemRow) (userId competitorId : Int) (m : Message) : Bool :=
  (match m.problemId with
    | none => true
    | some problemId => problems.any fun p => p.id == problemId && p.isActive) &&
  (m.userId.isNone || m.userId == some userId || m.userId == some competitorId)

def messageView (m : Message) : MessageView :=
  ⟨m.problemId.bind fun problemId => (site.db.problems.find? problemId).map fun p => (p.number, p.name), m.userText,
    m.juryText, m.sendTime⟩

def messagesFor (contestId userId competitorId : Int) : List Message :=
  orderBy (descending (byNullable Message.sendTime)) (site.db.history.messages.rows.filter fun m =>
    m.contestId == contestId && isForUser site.db.problems.rows userId competitorId m)

def ownView (problems : List ProblemRow) (s : Submission) : Option OwnView :=
  (problems.find? (·.id == s.problemId)).map fun p =>
    { id := s.id
      commitTime := s.commitTime
      problem := (p.number, p.name)
      compilator := (site.db.compilators.find? s.compilatorId).map fun c => (c.name, c.description)
      statusCode := s.statusCode
      score := (site.submission s.id).score
      scoresByTest := Domain.ScoresByTest.formattedScoresByTest host.classes (site.submission s.id).scoresByTest }

def submitsView (principal : Principal) (id : Int) (page : Submits.Loaded) : Except OperationExn SubmitsView := do
  let competitor ← currentCompetitor id principal.userId site.db
  let messages := site.messagesFor id principal.userId (competitor.getD 0)
  return {
    contest := page.contest
    problems := page.problems.map problemName
    compilators := page.compilators.map fun c => (c.id, c.description)
    compilatorId := page.compilatorId ⟨none, none, none⟩
    submissions := page.submissions.filterMap (site.ownView host page.problems)
    standing := (Domain.Standing.userProblemStanding (page.problems.map site.domainProblem)
      (page.submissions.filterMap site.includeUser) none).map Domain.Freeze.cellView
    messages := messages.map site.messageView
    commonMessageCount := (messages.filter fun m => m.userId.isNone).length }

/-- `Submits`. What it loads is loaded before the user is looked at. -/
def submits (principal : Principal) (id : Int) : Except OperationExn Response := do
  let load ← (Submits.loadAsync principal id (calm now) ⟨site.db, 0⟩).1
  match load with
  | none => return .notFound
  | some page => do
    let view ← site.submitsView host principal id page
    let authorized ← mayTakePart now site.db principal page.contest .submitSolution
    return if authorized then .submits view else .forbid

def sendMessage (principal : Principal) (id : Int) : Except OperationExn Response := do
  let load ← (SendMessage.loadAsync id (calm now) ⟨site.db, 0⟩).1
  match load with
  | none => return .notFound
  | some page => do
    let authorized ← mayTakePart now site.db principal page.contest .sendMessage
    return if authorized then .sendMessage page.contest (site.contest id).name
      (page.problems.map problemName) else .forbid

def isExample (test : TestRow) : Bool := test.content.isOpen && test.content.isActive

def showText (principal : Principal) (id : Int) : Response :=
  match site.db.problems.find? id with
  | none => .notFound
  | some p =>
    match site.db.contests.find? p.contestId with
    | none => .notFound
    | some contest =>
      if (allowDownloadProblems now contest (site.contest contest.id) && p.isActive) || isStaff (some principal) then
        .problem {
          contestName := (site.contest contest.id).name
          problem := (p.number, p.name)
          timeLimit := p.timeLimit
          memoryLimit := p.memoryLimit
          text := p.text
          examples := (orderBy (byKey fun test : TestRow => test.content.number) (p.tests.filter isExample)).map
            fun test => (test.content.input, test.content.output) }
      else .forbid

structure Search where
  user : Option String
  problem : Option String
  compilator : Option String

/-- A submission with what the list includes of it. -/
structure Listed where
  submission : Submission
  account : Account
  problem : ProblemRow
  contest : Contest
  compilator : CompilatorRow

def includeAll (s : Submission) : Option Listed := do
  let account ← site.db.users.find? s.userId
  let problem ← site.db.problems.find? s.problemId
  let contest ← site.db.contests.find? problem.contestId
  let compilator ← site.db.compilators.find? s.compilatorId
  return ⟨s, account, problem, contest, compilator⟩

def Search.matches (search : Search) (x : Listed) : Bool :=
  (search.user.all fun text => host.contains x.account.user.name text) &&
    (search.problem.all fun text => host.contains x.problem.name text) &&
      search.compilator.all fun text =>
        host.contains x.compilator.name text || x.compilator.description.any fun d => host.contains d text

/-- `x.User is OlympUser && !x.User.IsHidden && !x.Problem.Contest.IsHidden`. -/
def Listed.isPublic (x : Listed) : Bool :=
  x.account.olympUser?.isSome && !x.account.user.isHidden && !x.contest.isHidden

def listedView (x : Listed) : ListedView where
  commitTime := x.submission.commitTime
  user := x.account.user.name
  organization := x.account.olympUser?.bind fun user =>
    (user.organizationId.bind site.db.organizations.find?).map (·.name)
  problem := problemName x.problem
  contest := (site.contest x.contest.id).name
  compilator := (x.compilator.name, x.compilator.description)
  statusCode := x.submission.statusCode

def pageSize : Nat := 10

/-- The submissions of the list, the last first. -/
def query (staff : Bool) (search : Search) : List Listed :=
  let latest := orderBy (descending (byKey Submission.commitTime)) site.db.history.submissions.rows
  (latest.filterMap site.includeAll).filter fun x => search.matches host x && (staff || x.isPublic)

def submissions (principal : Principal) (n : Int) (search : Search) : Response :=
  let staff := isStaff (some principal)
  if n < 1 then .notFound
  else if !staff && (decide (10 ≤ n) || search.user.isSome || search.problem.isSome ||
    search.compilator.isSome) then .forbid
  else
    let rows := ((site.query host staff search).drop ((n - 1).toNat * pageSize)).take pageSize
    if rows.isEmpty then .notFound else .submissions n (rows.map site.listedView)

/-- `new { submission, submission.Compilator.SourceExtension }`. -/
def findSource (id : Int) : Option (Submission × String) := do
  let s ← site.db.history.submissions.find? id
  let compilator ← site.db.compilators.find? s.compilatorId
  return (s, site.sourceExtension compilator.id)

def code (principal : Principal) (id : Int) : Except OperationExn Response :=
  match site.findSource id with
  | none => .ok .notFound
  | some (s, sourceExtension) =>
    match sourceExtension.toList with
    | [] => .error (.other (.argument "Length cannot be less than zero." "length"))
    | _ :: lang =>
      .ok (if mayView site.db principal s.userId then .code s.text (String.ofList lang) else .forbid)

def download (principal : Principal) (id : Int) : Response :=
  match site.findSource id with
  | none => .notFound
  | some (s, sourceExtension) =>
    if mayView site.db principal s.userId then
      .file (Checker.CheckerService.encode s.text) "text/plain; charset=utf-8"
        (Lib.Paths.changeExtension host.isSeparator
          ((site.submission s.id).description.getD (toString s.id)) sourceExtension)
    else .forbid

def submissionRow : Maker Submission SubmissionRow.id where
  make s id := {
    id := id
    text := s.text
    statusCode := s.statusCode
    commitTime := s.commitTime
    lastModification := s.lastModification
    score := (site.submission s.id).score
    scoresByTest := (site.submission s.id).scoresByTest
    problemId := s.problemId
    compilatorId := s.compilatorId }
  keyed _ _ := rfl

/-- The tables of judging. -/
def judging : OlympSystem.Site.Db where
  contests := Table.empty 1
  compilators := site.db.compilators
  checkers := []
  problems := site.db.problems
  nextTest := 0
  submissions := site.db.history.submissions.map site.submissionRow
  checkResults := site.db.history.checkResults
  submissions_of := by
    intro row hrow
    obtain ⟨s, hs, rfl⟩ := List.mem_map.mp hrow
    exact site.problem_of s hs

/-- The author of the submission with this id, as the handler compares it. -/
def viewableRow (principal : Principal) (row : SubmissionRow) : Bool :=
  (site.db.history.submissions.find? row.id).any fun s => mayView site.db principal s.userId

def compilationErrors (principal : Principal) (id : Int) : Except OperationExn Response :=
  match ErrorsPage.onGetAsync ⟨host.march2023, host.indexOf, site.viewableRow principal⟩ site.judging id with
  | .error e => .error (.other e)
  | .ok .notFound => .ok .notFound
  | .ok .forbid => .ok .forbid
  | .ok (.page text) => .ok (.errors text)

end Content

/-! ## Requests -/

inductive Request where
  | contests
  | downloadProblems (id : Int)
  | downloadTests (id : Int)
  | standing (id : Int) (official : Bool) (startTime : Option Int)
  | submits (id : Int)
  | sendMessage (id : Int)
  | showText (id : Int)
  | submissions (n : Int) (search : Content.Search)
  | code (id : Int)
  | download (id : Int)
  | errors (id : Int)

/-- The pages with `[Authorize]` send those who are not signed in away. -/
def signedIn (viewer : Option Principal) (page : Principal → Except OperationExn Response) :
    Except OperationExn Response :=
  match viewer with
  | none => .ok .challenge
  | some principal => page principal

def respond (host : Host) (now : Int) (viewer : Option Principal) (site : Content) :
    Request → Except OperationExn Response
  | .contests => .ok (site.contests host now viewer)
  | .downloadProblems id => .ok (site.downloadProblems now viewer id)
  | .downloadTests id => .ok (site.downloadTests now viewer id)
  | .standing id official startTime => site.standing host now viewer id official startTime
  | .submits id => signedIn viewer fun principal => site.submits host now principal id
  | .sendMessage id => signedIn viewer fun principal => site.sendMessage now principal id
  | .showText id => signedIn viewer fun principal => .ok (site.showText now principal id)
  | .submissions n search => signedIn viewer fun principal => .ok (site.submissions host principal n search)
  | .code id => signedIn viewer fun principal => site.code principal id
  | .download id => signedIn viewer fun principal => .ok (site.download host principal id)
  | .errors id => signedIn viewer fun principal => site.compilationErrors host principal id

end OlympSystem.Site.Accounts.ViewPages
