/-
  OlympSystem.Site.CompetitorManagementService — registration and management of the
  competitors of a contest (`CompetitorManagementService.cs`).

  `UpdateAsync` and `DeleteAsync` open no transaction: other calls get in between their
  accesses. They are cut into those pieces here, and put together for the one call that
  makes them inside a transaction.

  A dictionary by name without case is `Dict` under upper-casing. The entities of one call
  are read in that call.
-/

import OlympSystem.Lib.Dictionaries
import OlympSystem.Lib.Query
import OlympSystem.Lib.Text
import OlympSystem.Site.Accounts

namespace OlympSystem.Site.Accounts.CompetitorManagement

open Lib.Text Lib.Query Lib.Dictionaries Lib.Transactions

/-- What the service gets from its surroundings: the culture, and letter case. -/
structure CompetitorManagementService where
  culture : Domain.Culture
  upper : UpperCase

def competitorContest : String := "competitor-contest"

structure ParticipantImportSummary where
  added : Nat
  existing : Nat
  deriving DecidableEq, Repr

abbrev Op := Work Db OperationExn

def canceled : OperationExn := .other .operationCanceled

/-- `new Competitor { Name = name, ContestId = contestId }`; the store sets id and stamp. -/
def newCompetitor (name : String) (contestId : Int) : Competitor where
  id := 0
  userName := none
  passwordHash := none
  concurrencyStamp := 0
  name := name
  isDisqualified := false
  isHidden := false
  registrationDate := none
  coachId := none
  organizationId := none
  isApproved := false
  isOutOfCompetition := false
  memberInfos := none
  contestId := contestId

def getParticipantName (user : OlympUser) (organization : Option Organization) : String :=
  user.firstName.getD "" ++ " " ++ user.lastName.getD "" ++ ", " ++ (organization.map (·.name)).getD "" ++
    match user.details with
    | none => ""
    | some details => ", " ++ details

/-! ## Queries -/

def findContest (contestId : Int) : Op Contest := do
  let contest ← Work.query fun db => db.contests.find? contestId
  Work.orThrow contest .entityNotFound

def ofContest (contestId : Int) (db : Db) : List Competitor := db.competitors.filter (·.contestId == contestId)

def findCompetitors (contestId : Int) : Op (Contest × List Competitor) := do
  let found ← Work.query fun db => (db.contests.find? contestId).map (·, ofContest contestId db)
  Work.orThrow found .entityNotFound

/-- `x.ContestId == contestId && x.Members.Any(m => userIds.Contains(m.Id))`. -/
def anyRegistered (contestId : Int) (userIds : List Int) : Op Bool :=
  Work.query fun db => (ofContest contestId db).any fun x => userIds.any (db.isMember · x)

def findOlympUser (userId : Int) : Op (OlympUser × Option Organization) := do
  let found ← Work.query fun db =>
    (db.olympUsers.find? (·.id == userId)).map fun user => (user, user.organizationId.bind db.organizations.find?)
  Work.orThrow found .entityNotFound

/-! ## Registration -/

section Registration

variable (service : CompetitorManagementService)

def registerIndividualAsync (contestId userId : Int) (outOfCompetition : Bool) : Op Unit := Work.transaction do
  let contest ← findContest contestId
  let now ← Work.now
  Work.throwIf (contest.isHidden || contest.isAcm service.culture || decide (contest.endTime < now))
    (.operationValidation "Registration is not available for this contest." [])
  let (user, organization) ← findOlympUser userId
  let registered ← anyRegistered contestId [userId]
  Work.throwIf registered (.operationValidation "You are already registered for this contest!" [])
  Work.throwIf (user.firstName.isNone || user.lastName.isNone || organization.isNone)
    (.operationValidation "Registration information is incorrect." [])
  Work.throwIf (user.details.isNone && !outOfCompetition)
    (.operationValidation "The {0} field in the profile must be filled in." ["Group"])
  let registrationDate ← Work.now
  UserManager.createAsync { newCompetitor (getParticipantName user organization) contestId with
    isHidden := user.isHidden
    isOutOfCompetition := outOfCompetition
    organizationId := user.organizationId
    registrationDate := some registrationDate } [user]

/-- One field of `MemberInfos`: a member's name and id, or a name that was typed in. -/
def memberInfo (membersById : List OlympUser) (text : String) : Except OperationExn String :=
  match tryParseInt text with
  | none => .ok (text ++ ";")
  | some id =>
    match membersById.find? (·.id == id) with
    | none => .error (.other (.external "KeyNotFoundException"))
    | some member => .ok (member.lastName.getD "" ++ " " ++ member.firstName.getD "" ++ ";" ++ toString id)

def registerTeamAsync (contestId organizationId coachId : Int) (name : String) (participants : List String) :
    Op Unit := do
  Work.throwIf (isBlank name || participants.length != 3 || participants.any fun x => isBlank x ||
    x.toList.contains ';')
    (.operationValidation "Registration information is incorrect." [])
  let memberIds := participants.filterMap tryParseInt
  Work.throwIf (memberIds.eraseDups.length != memberIds.length || participants.eraseDups.length != participants.length)
    (.operationValidation "Participants must be different." [])
  Work.transaction do
    let contest ← findContest contestId
    let now ← Work.now
    Work.throwIf (contest.isHidden || !contest.isAcm service.culture || decide (contest.endTime < now))
      (.operationValidation "Registration is not available for this contest." [])
    let hasOrganization ← Work.query fun db => db.organizations.rows.any (·.id == organizationId)
    Work.throwIf (!hasOrganization) .entityNotFound
    let hasCoach ← Work.query fun db => db.olympUsers.any (·.id == coachId)
    Work.throwIf (!hasCoach) .entityNotFound
    let membersById ← Work.query fun db => db.olympUsers.filter fun x =>
      memberIds.contains x.id && x.organizationId == some organizationId && !x.isHidden
    Work.throwIf (membersById.length != memberIds.length) (.operationValidation "Invalid value" [])
    let registered ← anyRegistered contestId memberIds
    Work.throwIf registered
      (.operationValidation "One or more participants are already registered for this contest." [])
    let memberInfos ← Work.lift (participants.mapM (memberInfo membersById))
    let registrationDate ← Work.now
    UserManager.createAsync { newCompetitor name contestId with
      organizationId := some organizationId
      coachId := some coachId
      memberInfos := some (String.intercalate ";" memberInfos)
      registrationDate := some registrationDate } membersById

end Registration

/-! ## Flags -/

/-- What the callers of `UpdateAsync` set. -/
inductive Flag where
  | approval (value : Bool)
  | outOfCompetition (value : Bool)
  | disqualification (value : Bool)
  deriving DecidableEq, Repr

def Flag.set (flag : Flag) (participant : Competitor) : Competitor :=
  match flag with
  | .approval value => { participant with isApproved := value }
  | .outOfCompetition value => { participant with isOutOfCompetition := value }
  | .disqualification value => { participant with isDisqualified := value }

def findParticipant (contestId participantId : Int) : Op Competitor := do
  let participant ← Work.query fun db =>
    db.competitors.find? fun x => x.id == participantId && x.contestId == contestId
  Work.orThrow participant .entityNotFound

/-! ## Deletion -/

def recordsExist : OperationExn :=
  .operationValidation "The participant cannot be deleted because submissions or other related records exist." []

def findWithMembers (contestId participantId : Int) : Op (Competitor × List Int) := do
  let found ← Work.query fun db =>
    (db.competitors.find? fun x => x.id == participantId && x.contestId == contestId).map fun x =>
      (x, db.membersOf x.id)
  Work.orThrow found .entityNotFound

def refuseSubmissions (participantId : Int) : Op Unit := do
  let any ← Work.query fun db => db.history.submissions.rows.any (·.userId == participantId)
  Work.throwIf any recordsExist

def refuseMessages (participantId : Int) : Op Unit := do
  let any ← Work.query fun db => db.history.messages.rows.any (·.userId == some participantId)
  Work.throwIf any recordsExist

def deleteAsync (contestId participantId : Int) : Op Unit := do
  let (participant, members) ← findWithMembers contestId participantId
  refuseSubmissions participantId
  refuseMessages participantId
  UserManager.deleteAsync participant members

/-- `!x.Submissions.Any() && !x.Messages.Any()`. -/
def withoutSubmissions (db : Db) (x : Competitor) : Bool :=
  !db.history.submissions.rows.any (·.userId == x.id) && !db.history.messages.rows.any (·.userId == some x.id)

def deleteWithoutSubmissionsAsync (contestId : Int) : Op Nat := Work.transaction do
  let contest ← findContest contestId
  let now ← Work.now
  Work.throwIf (decide (now ≤ contest.endTime))
    (.operationValidation "Participants without submissions can only be deleted after the contest has ended." [])
  let participantIds ← Work.query fun db =>
    (orderBy (byKey fun x : Competitor => x.id) ((ofContest contestId db).filter (withoutSubmissions db))).map
      fun x => x.id
  participantIds.foldlM (fun _ participantId => do
    Work.throwIfCancelled canceled
    deleteAsync contestId participantId) ()
  return participantIds.length

/-! ## Approval and import -/

def approveAllAsync (contestId : Int) : Op Unit := Work.transaction do
  let (_, participants) ← findCompetitors contestId
  (participants.filter (!·.isApproved)).foldlM (fun _ participant => do
    Work.throwIfCancelled canceled
    let _ ← UserManager.updateAsync { participant with isApproved := true }
    return ()) ()

section Import

variable (service : CompetitorManagementService)

/-- One round of the import: how many names were added before it, and after it. -/
def importName (contestId : Int) (existing : List Competitor) (added : Nat) (name : String) : Op Nat := do
  Work.throwIfCancelled canceled
  let count := (existing.filter fun x => service.upper.equals (trim x.name) name).length
  Work.throwIf (decide (1 < count))
    (.operationValidation "The contest contains multiple participants named '{0}'." [name])
  if count = 1 then return added
  else
    let registrationDate ← Work.now
    UserManager.createAsync { newCompetitor name contestId with
      isApproved := true
      registrationDate := some registrationDate } []
    return added + 1

def importAsync (contestId : Int) (names : List String) : Op ParticipantImportSummary := do
  Work.throwIf names.isEmpty (.operationValidation "The file contains no participant names." [])
  Work.throwIf ((names.map service.upper.fold).eraseDups.length != names.length)
    (.operationValidation "The file contains duplicate participant names." [])
  Work.transaction do
    let (contest, existing) ← findCompetitors contestId
    Work.throwIf (contest.isAcm service.culture)
      (.operationValidation "Participant names can only be imported into individual contests." [])
    let added ← names.foldlM (importName service contestId existing) 0
    return ⟨added, names.length - added⟩

end Import

/-! ## Logins -/

section Logins

variable (service : CompetitorManagementService)

abbrev Logins := Dict String String service.upper.fold

/-- The three writes that give a competitor a login. -/
def assignLogin (contestId : Int) (participant : Competitor) (login password : String) : Op Unit := do
  let participant ← UserManager.setUserNameAsync participant (some login)
  let participant ← UserManager.addPasswordAsync participant password
  let _ ← UserManager.addClaimAsync participant competitorContest (toString contestId)
  return ()

/-- One round of the assignment: the first login that is left goes. -/
def assignNext (contestId : Int) (available : Logins service) (participant : Competitor) : Op (Logins service) := do
  Work.throwIfCancelled canceled
  let (login, password) ← Work.orThrow available.entries.head?
    (.other (.invalidOperation "Sequence contains no elements"))
  assignLogin contestId participant login password
  return available.remove login

def registrationOrder : Competitor → Competitor → Bool :=
  thenBy (byNullable fun x => x.registrationDate) (byKey fun x => x.id)

def withoutNames (available : Logins service) (participants : List Competitor) : Logins service :=
  participants.foldl (fun available participant =>
    match participant.userName with
    | some username => available.remove username
    | none => available) available

def assignLoginsAsync (contestId : Int) (logins : List (String × String)) : Op Unit := do
  let available ← logins.foldlM (fun (available : Logins service) (login, password) =>
    Work.orThrow (available.tryAdd login password)
      (.operationValidation "The file contains duplicate logins." [])) Dict.empty
  Work.transaction do
    let (_, participants) ← findCompetitors contestId
    let available := withoutNames service available participants
    let unnamed := participants.filter (·.userName.isNone)
    Work.throwIf (decide (available.entries.length < unnamed.length))
      (.operationValidation "The file contains too few logins." [])
    let _ ← (orderBy registrationOrder unnamed).foldlM (assignNext service contestId) available
    return ()

/-- `random` is what the generator gives for the passwords. -/
def generatedLogins (count : Nat) (random : Nat → String) : List (String × String) :=
  (List.range count).map fun i => ("olymp" ++ padded 3 (i + 1), random i)

def countCompetitors (contestId : Int) : Op Nat := Work.query fun db => (ofContest contestId db).length

def removeLogin (contestId : Int) (participant : Competitor) : Op Unit := do
  let participant ← UserManager.setUserNameAsync participant none
  let participant ← UserManager.removePasswordAsync participant
  let _ ← UserManager.removeClaimAsync participant competitorContest (toString contestId)
  return ()

def removeLoginsAsync (contestId : Int) : Op Unit := Work.transaction do
  let (_, participants) ← findCompetitors contestId
  participants.foldlM (fun _ participant => do
    Work.throwIfCancelled canceled
    removeLogin contestId participant) ()

end Logins

end OlympSystem.Site.Accounts.CompetitorManagement
