/-
  OlympSystem.Site.ContestPages — the pages on which contestants send in submissions and
  ask questions (`Pages/Contests/Submits`), and the handler that lets them
  (`ContestAuthorizationHandler.cs`).

  The handler decides who may post; the page chooses the author. Each looks at the
  memberships of the user with a query of its own. A request is alone on the database.

  What a form binds is an `InputModel`; a value that does not convert is missing in it, and
  comes with its errors. `windows1251` is what a text is after it is stored in that encoding.

  Proved:
  - `findCurrent_returns`: what the lookup of the user's competitor finds.
  - `atomic_submits` and `atomic_sendMessage`: a request that throws has stored nothing.
-/

import OlympSystem.Lib.Query
import OlympSystem.Lib.Text
import OlympSystem.Site.Accounts

namespace OlympSystem.Site.Accounts

open Lib.Tables Lib.Transactions

/-! ## Writes -/

namespace Db

/-- A submission of a user who is there; the store sets its id. -/
def addSubmission (db : Db) (submission : Submission) (h : ∃ account ∈ db.users.rows, account.id = submission.userId) :
    Db :=
  { db with
    history := { db.history with
      submissions := db.history.submissions.insert ⟨fun s id => { s with id := id }, fun _ _ => rfl⟩ submission }
    history_of := by
      intro id hid
      by_cases hnew : submission.userId = id
      · exact hnew ▸ h
      · refine db.history_of id ?_
        simpa [History.mentions, Table.insert, hnew] using hid }

/-- A message, of a user who is there if it has one; the store sets its id. -/
def addMessage (db : Db) (message : Message)
    (h : ∀ userId, message.userId = some userId → ∃ account ∈ db.users.rows, account.id = userId) : Db :=
  { db with
    history := { db.history with
      messages := db.history.messages.insert ⟨fun m id => { m with id := id }, fun _ _ => rfl⟩ message }
    history_of := by
      intro id hid
      by_cases hnew : message.userId = some id
      · exact h id hnew
      · refine db.history_of id ?_
        simpa [History.mentions, Table.insert, hnew] using hid }

end Db

namespace ContestPages

open Lib.Query Lib.Text

abbrev Action := Work Db OperationExn

/-- Who is signed in: the id and the roles that its claims say. -/
structure Principal where
  userId : Int
  isAdmin : Bool
  isJury : Bool
  deriving DecidableEq, Repr

/-! ## Authorization -/

inductive OperationName where
  | submitSolution
  | viewSolution
  | sendMessage
  deriving DecidableEq, Repr

/-- `!IsHidden && Now >= StartTime && (Now <= EndTime || afterEnd)`. -/
def allowed (contest : Contest) (afterEnd : Bool) : Action Bool :=
  if contest.isHidden then pure false
  else do
    let now ← Work.now
    if now < contest.startTime then pure false
    else do
      let now ← Work.now
      return decide (now ≤ contest.endTime) || afterEnd

def allowSubmitSolution (contest : Contest) : Action Bool := allowed contest contest.isOpen

def allowSendMessage (contest : Contest) : Action Bool := allowed contest false

def competitorsWith (contestId userId : Int) (db : Db) : List Competitor :=
  db.competitors.filter fun x => x.contestId == contestId && db.isMember userId x

inductive Decision where
  | succeed
  | fail
  | undecided
  deriving DecidableEq, Repr

def allow (contest : Contest) : OperationName → Action Bool
  | .submitSolution => allowSubmitSolution contest
  | .sendMessage => allowSendMessage contest
  | .viewSolution => pure false

def handleRequirementAsync (principal : Principal) (requirement : OperationName) (contest : Contest) :
    Action Decision :=
  if principal.isAdmin || principal.isJury then pure .succeed
  else do
    let allow ← allow contest requirement
    let user ← Work.query fun db => db.users.find? principal.userId
    match user with
    | none => pure .fail
    | some account =>
      if !allow || account.user.isDisqualified then pure .fail
      else
        match account with
        | .competitor competitor =>
          if competitor.isApproved && competitor.contestId == contest.id then do
            let now ← Work.now
            return if now ≤ contest.endTime then .succeed else .fail
          else pure .fail
        | .olympUser user =>
          if contest.isOpen then pure .succeed
          else do
            let hasCompetitor ← Work.query fun db =>
              (competitorsWith contest.id user.id db).any fun x =>
                x.isApproved && x.isOutOfCompetition && !x.isDisqualified
            return if hasCompetitor then .succeed else .undecided

/-- No other handler is for contests: what does not succeed is refused. -/
def authorizeAsync (principal : Principal) (contest : Contest) (requirement : OperationName) : Action Bool := do
  let decision ← handleRequirementAsync principal requirement contest
  return decision == .succeed

/-! ## Forms -/

/-- A model error: the field path, and the localized message by its key and arguments. -/
structure ModelError where
  key : String
  message : String
  args : List String
  deriving DecidableEq, Repr

inductive ActionResult where
  | notFound
  | forbid
  | page (errors : List ModelError)
  | redirectToPage (pageName : Option String) (routeId : Option Int) (fragment : String)
  deriving DecidableEq, Repr

def required (key name : String) (missing : Bool) : List ModelError :=
  if missing then [⟨key, "The {0} field is required.", [name]⟩] else []

/-- `[StringLength]`, in UTF-16 code units; null passes. -/
def stringLength (key name : String) (minimum maximum : Nat) : Option String → List ModelError
  | none => []
  | some text =>
    if minimum ≤ (ordinal text).length ∧ (ordinal text).length ≤ maximum then []
    else [⟨key, "The {0} must be at least {2} and at most {1} characters long.",
      [name, toString maximum, toString minimum]⟩]

def invalidValue (key : String) (invalid : Bool) : List ModelError :=
  if invalid then [⟨key, "Invalid value", []⟩] else []

/-- The errors of the values that did not convert, and those of the attributes of the other fields. -/
def withBinding (binding errors : List ModelError) : List ModelError :=
  binding ++ errors.filter fun error => !binding.any (·.key == error.key)

theorem withBinding_nil {binding errors : List ModelError} (h : withBinding binding errors = []) :
    binding = [] ∧ errors = [] := by
  obtain ⟨rfl, hrest⟩ := List.append_eq_nil_iff.mp h
  simpa using hrest

/-! ## The current competitor -/

def singleOrDefault {α : Type} : List α → Except OperationExn (Option α)
  | [] => .ok none
  | [a] => .ok (some a)
  | _ => .error (.other (.invalidOperation "Sequence contains more than one element."))

/-- The ids of the user's competitors in the contest: there may be one. -/
def currentCompetitor (contestId userId : Int) (db : Db) : Except OperationExn (Option Int) :=
  singleOrDefault ((competitorsWith contestId userId db).map fun x => x.id)

def findCurrent (contestId userId : Int) : Action (Option Int) :=
  Work.access fun db => (currentCompetitor contestId userId db).map (·, db)

/-- `Contest.IsOpen ? userId : competitorId ?? userId`. -/
def author (contest : Contest) (userId : Int) (competitorId : Option Int) : Int :=
  if contest.isOpen then userId else competitorId.getD userId

/-- `Include(x => x.Problems.Where(x => x.IsActive).OrderBy(x => x.Number))`. -/
def activeProblems (contestId : Int) (db : Db) : List ProblemRow :=
  orderBy (byKey fun x : ProblemRow => x.number) (db.problems.rows.filter fun x =>
    x.contestId == contestId && x.isActive)

def hasUser (userId : Int) (db : Db) : Prop := ∃ account ∈ db.users.rows, account.id = userId

instance (userId : Int) (db : Db) : Decidable (hasUser userId db) :=
  inferInstanceAs (Decidable (∃ account ∈ db.users.rows, account.id = userId))

def value (x : Option Int) : Action Int :=
  Work.orThrow x (.other (.invalidOperation "Nullable object must have a value."))

/-! ## Submits -/

namespace Submits

structure InputModel where
  problemId : Option Int
  compilatorId : Option Int
  code : Option String
  deriving DecidableEq, Repr

def InputModel.validate (input : InputModel) : List ModelError :=
  required "Input.ProblemId" "Problem" input.problemId.isNone ++
    required "Input.CompilatorId" "Compiler" input.compilatorId.isNone ++
    required "Input.Code" "Source code" (input.code.all isBlank) ++
    stringLength "Input.Code" "Source code" 10 (32 * 1024) input.code

structure Loaded where
  contest : Contest
  problems : List ProblemRow
  compilators : List CompilatorRow
  submissions : List Submission

/-- The submissions of the user and of the competitor to these problems, the last first. -/
def submissionsOf (problems : List ProblemRow) (userId competitorId : Int) (db : Db) : List Submission :=
  let latest := descending (byKey fun x : Submission => x.commitTime)
  orderBy latest (problems.flatMap fun problem => orderBy latest (db.history.submissions.rows.filter fun x =>
    x.problemId == problem.id && (x.userId == userId || x.userId == competitorId)))

def loadAsync (principal : Principal) (id : Int) : Action (Option Loaded) := do
  let competitor ← findCurrent id principal.userId
  let competitorId := competitor.getD 0
  let found ← Work.query fun db => (db.contests.find? id).map fun contest =>
    let problems := activeProblems id db
    (contest, problems, submissionsOf problems principal.userId competitorId db)
  match found with
  | none => pure none
  | some (contest, problems, submissions) => do
    let compilators ← Work.query fun db => db.compilators.rows.filter (·.isActive)
    return some ⟨contest, problems, compilators, submissions⟩

/-- `Input.CompilatorId ??=` the compiler of the last submission that still has one. -/
def Loaded.compilatorId (page : Loaded) (input : InputModel) : Option Int :=
  input.compilatorId.or ((page.submissions.map Submission.compilatorId).find? fun id =>
    page.compilators.any fun x => x.id == id)

def Loaded.errors (page : Loaded) (input : InputModel) : List ModelError :=
  invalidValue "Input.CompilatorId" (!page.compilators.any fun x => some x.id == page.compilatorId input) ++
    invalidValue "Input.ProblemId" (!page.problems.any fun x => some x.id == input.problemId)

/-- `Submissions.Add` and `SaveChangesAsync`: the keys of the submission are checked. -/
def save (submission : Submission) : Action Unit :=
  Work.access fun db =>
    if h : hasUser submission.userId db ∧ (∃ problem ∈ db.problems.rows, problem.id = submission.problemId) ∧
        ∃ compilator ∈ db.compilators.rows, compilator.id = submission.compilatorId then
      .ok ((), db.addSubmission submission h.1)
    else .error UserManager.updateFailure

def post (windows1251 : String → String) (principal : Principal) (id : Int) (page : Loaded) (input : InputModel) :
    Action ActionResult := do
  let competitorId ← findCurrent id principal.userId
  let problemId ← value input.problemId
  let compilatorId ← value (page.compilatorId input)
  let code ← Work.orThrow input.code (.other (.argument "Value cannot be null." "s"))
  let commitTime ← Work.now
  let lastModification ← Work.now
  save {
    id := 0
    text := windows1251 code
    statusCode := 0
    commitTime := commitTime
    lastModification := lastModification
    userId := author page.contest principal.userId competitorId
    problemId := problemId
    compilatorId := compilatorId }
  return .redirectToPage none none "submissions-tab-pane"

/-- `binding` are the errors of the values that did not convert. -/
def onPostAsync (windows1251 : String → String) (principal : Principal) (id : Int) (input : InputModel)
    (binding : List ModelError) : Action ActionResult := do
  let load ← loadAsync principal id
  match load with
  | none => pure .notFound
  | some page => do
    let authorized ← authorizeAsync principal page.contest .submitSolution
    if !authorized then pure .forbid
    else
      let errors := withBinding binding input.validate ++ page.errors input
      if !errors.isEmpty then pure (.page errors)
      else post windows1251 principal id page input

end Submits

/-! ## Questions -/

namespace SendMessage

structure InputModel where
  problemId : Option Int
  text : Option String
  deriving DecidableEq, Repr

def InputModel.validate (input : InputModel) : List ModelError :=
  required "Input.Text" "Question" (input.text.all isBlank) ++ stringLength "Input.Text" "Question" 10
    (4 * 1024) input.text

structure Loaded where
  contest : Contest
  problems : List ProblemRow

def loadAsync (id : Int) : Action (Option Loaded) :=
  Work.query fun db => (db.contests.find? id).map fun contest => ⟨contest, activeProblems id db⟩

def Loaded.errors (page : Loaded) (input : InputModel) : List ModelError :=
  invalidValue "Input.ProblemId" (input.problemId.isSome && !page.problems.any fun x => some x.id == input.problemId)

/-- `Messages.Add` and `SaveChangesAsync`: the keys of the message are checked. -/
def save (message : Message) : Action Unit :=
  Work.access fun db =>
    if h : (∀ userId ∈ message.userId, hasUser userId db) ∧
        (∀ problemId ∈ message.problemId, ∃ problem ∈ db.problems.rows, problem.id = problemId) ∧
        ∃ contest ∈ db.contests.rows, contest.id = message.contestId then
      .ok ((), db.addMessage message fun userId huser => h.1 userId huser)
    else .error UserManager.updateFailure

def post (principal : Principal) (id : Int) (page : Loaded) (input : InputModel) : Action ActionResult := do
  let competitorId ← findCurrent id principal.userId
  let sendTime ← Work.now
  save {
    id := 0
    userText := input.text
    juryText := none
    sendTime := some sendTime
    userId := some (author page.contest principal.userId competitorId)
    problemId := input.problemId
    contestId := page.contest.id }
  return .redirectToPage (some "./Index") (some id) "messages-tab-pane"

def onPostAsync (principal : Principal) (id : Int) (input : InputModel) (binding : List ModelError) :
    Action ActionResult := do
  let load ← loadAsync id
  match load with
  | none => pure .notFound
  | some page => do
    let authorized ← authorizeAsync principal page.contest .sendMessage
    if !authorized then pure .forbid
    else
      let errors := withBinding binding input.validate ++ page.errors input
      if !errors.isEmpty then pure (.page errors)
      else post principal id page input

end SendMessage

/-! ## Lookups -/

section Lookups

variable {o : Outside OperationExn} {db db' : Db} {contestId userId : Int}

theorem singleOrDefault_ok {α : Type} {l : List α} {found : Option α} :
    singleOrDefault l = .ok found ↔ l = found.toList := by
  rcases l with _ | ⟨a, _ | ⟨b, rest⟩⟩ <;> cases found <;> simp [singleOrDefault]

theorem mem_competitorsWith {c : Competitor} :
    c ∈ competitorsWith contestId userId db ↔
      c ∈ db.competitors ∧ c.contestId = contestId ∧ db.isMember userId c = true := by
  unfold competitorsWith
  rw [List.mem_filter, Bool.and_eq_true, beq_iff_eq]

/-- The lookup finds all competitors of the contest with the user. -/
theorem findCurrent_returns {found : Option Int} (h : Returns o (findCurrent contestId userId) db found db') :
    db' = db ∧ (competitorsWith contestId userId db).map (fun c => c.id) = found.toList := by
  obtain ⟨hfound, rfl⟩ := Returns.read h
  exact ⟨rfl, singleOrDefault_ok.mp hfound⟩

end Lookups

/-! ## Requests that throw -/

theorem quiet_findCurrent (contestId userId : Int) : Quiet (findCurrent contestId userId) := Quiet.read _

theorem quiet_allowed (contest : Contest) (afterEnd : Bool) : Quiet (allowed contest afterEnd) := by
  unfold allowed
  split
  · exact Quiet.pure _
  · refine Quiet.now.bind fun now => ?_
    split
    · exact Quiet.pure _
    · exact Quiet.now.bind fun _ => Quiet.pure _

theorem quiet_allow (contest : Contest) (requirement : OperationName) : Quiet (allow contest requirement) := by
  cases requirement
  exacts [quiet_allowed _ _, Quiet.pure _, quiet_allowed _ _]

theorem quiet_authorize (principal : Principal) (contest : Contest) (requirement : OperationName) :
    Quiet (authorizeAsync principal contest requirement) := by
  refine Quiet.bind ?_ fun _ => Quiet.pure _
  unfold handleRequirementAsync
  split
  · exact Quiet.pure _
  · refine (quiet_allow _ _).bind fun allow => (Quiet.query _).bind fun user => ?_
    cases user with
    | none => exact Quiet.pure _
    | some account =>
      dsimp only
      split
      · exact Quiet.pure _
      · cases account with
        | competitor competitor =>
          dsimp only
          split
          · exact Quiet.now.bind fun _ => Quiet.pure _
          · exact Quiet.pure _
        | olympUser user =>
          dsimp only
          split
          · exact Quiet.pure _
          · exact (Quiet.query _).bind fun _ => Quiet.pure _

theorem atomic_submits (windows1251 : String → String) (principal : Principal) (id : Int) (input : Submits.InputModel)
    (binding : List ModelError) : Atomic (Submits.onPostAsync windows1251 principal id input binding) := by
  have hload : Quiet (Submits.loadAsync principal id) := by
    refine (quiet_findCurrent _ _).bind fun competitor => (Quiet.query _).bind fun found => ?_
    cases found with
    | none => exact Quiet.pure _
    | some found => exact (Quiet.query _).bind fun _ => Quiet.pure _
  refine Atomic.after hload fun load => ?_
  cases load with
  | none => exact (Quiet.pure _).atomic
  | some page =>
    refine Atomic.after (quiet_authorize _ _ _) fun authorized => ?_
    split
    · exact (Quiet.pure _).atomic
    · dsimp only
      split
      · exact (Quiet.pure _).atomic
      · refine Atomic.after (quiet_findCurrent _ _) fun _ => Atomic.after (Quiet.orThrow _ _) fun _ => ?_
        refine Atomic.after (Quiet.orThrow _ _) fun _ => Atomic.after (Quiet.orThrow _ _) fun _ => ?_
        exact Atomic.after Quiet.now fun _ => Atomic.after Quiet.now fun _ => (Atomic.access _).then_pure _

theorem atomic_sendMessage (principal : Principal) (id : Int) (input : SendMessage.InputModel)
    (binding : List ModelError) :
    Atomic (SendMessage.onPostAsync principal id input binding) := by
  refine Atomic.after (Quiet.query _) fun load => ?_
  cases load with
  | none => exact (Quiet.pure _).atomic
  | some page =>
    refine Atomic.after (quiet_authorize _ _ _) fun authorized => ?_
    split
    · exact (Quiet.pure _).atomic
    · dsimp only
      split
      · exact (Quiet.pure _).atomic
      · exact Atomic.after (quiet_findCurrent _ _) fun _ => Atomic.after Quiet.now fun _ =>
          (Atomic.access _).then_pure _

end ContestPages

end OlympSystem.Site.Accounts
