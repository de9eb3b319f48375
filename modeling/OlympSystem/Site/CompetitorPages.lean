/-
  OlympSystem.Site.CompetitorPages — the pages that call the service on competitors: the
  management of a contest (`Contests/Competitors/Manage`), the registration of individuals
  (`Contests/Registration`) and of teams (`Contests/Registration/Teams`).

  A request reads what its page reads, then makes at most one call. Other requests get in
  between any two of its accesses. What a page read is not tracked: the call reads anew.

  The claims of a user are those of the cookie; the values of `coach-org` are numbers.

  Proved:
  - `team_accepted`: what the form for a team accepts, the checks of the service accept.
-/

import OlympSystem.Site.CompetitorIsolation
import OlympSystem.Site.ContestPages

namespace OlympSystem.Site.Accounts.CompetitorPages

open Lib.Text Lib.Transactions CompetitorManagement
open ContestPages (ModelError competitorsWith required singleOrDefault withBinding withBinding_nil)

/-! ## Users -/

structure SignedIn extends ContestPages.Principal where
  /-- The claim `competitor-contest`. -/
  isCompetitor : Bool
  /-- The claims `contest-manage`. -/
  manages : List String
  /-- The claims `coach-org`. -/
  coachOrgs : List Int

namespace SignedIn

def canCreate (user : SignedIn) : Bool := user.isAdmin || user.isJury

def canManage (user : SignedIn) (contestId : Int) : Bool :=
  user.canCreate && (user.isAdmin || user.manages.contains (toString contestId))

end SignedIn

/-! ## Files -/

structure FormFile where
  length : Nat
  text : String

/-- The lines of `ReadLineAsync`: there is none after the last break. -/
def breakLines : List Char → List (List Char)
  | [] => []
  | '\r' :: '\n' :: rest => [] :: breakLines rest
  | '\r' :: rest => [] :: breakLines rest
  | '\n' :: rest => [] :: breakLines rest
  | c :: rest =>
    match breakLines rest with
    | [] => [[c]]
    | line :: lines => (c :: line) :: lines

def readLines (text : String) : List String := (breakLines text.toList).map String.ofList

/-- The names of a file: its lines trimmed, but for the empty ones. -/
def participantNames (text : String) : List String := ((readLines text).map trim).filter (!·.isEmpty)

def fields (line : String) : List String :=
  (line.toList.splitOnP fun c => c == ';' || c == '\t' || c == ',').map String.ofList

/-- The logins up to the first line that has not two fields; nothing if a login is there twice. -/
def readLogins (logins : List (String × String)) : List String → Option (List (String × String))
  | [] => some logins
  | line :: lines =>
    match fields line with
    | [login, password] =>
      if logins.any (·.1 == trim login) then none else readLogins (logins ++ [(trim login, trim password)]) lines
    | _ => some logins

/-! ## Requests -/

/-- The handlers of `Competitors/Manage`. -/
inductive ManagePost where
  | action (userId : Int) (action : String)
  | approveAll
  | deleteWithoutSubmissions
  | uploadParticipants (file : Option FormFile)
  | uploadLogins (file : Option FormFile)
  /-- `random` is what the generator gives for the passwords. -/
  | createRandomLogins (random : Nat → String)
  | removeLogins

structure TeamInput where
  teamPrefix : Option String
  teamNumber : Option Int
  teamSuffix : Option String
  participant1 : Option String
  participant2 : Option String
  participant3 : Option String
  confirmation : Bool

inductive Request where
  | manage (id : Int) (post : ManagePost)
  /-- `Registration`: `OnPostCreateAsync` and `OnPostDeleteAsync`. -/
  | register (id : Int) (ooc : Bool)
  | unregister (id : Int)
  /-- `binding` are the errors of the values that did not convert. -/
  | createTeam (id orgId : Int) (input : TeamInput) (binding : List ModelError)
  | deleteTeam (id teamId : Int)

/-- The route value `id`, the contest. -/
def Request.id : Request → Int
  | .manage id _ | .register id _ | .unregister id | .createTeam id _ _ _ | .deleteTeam id _ => id

inductive Response where
  | forbid
  | notFound
  /-- With what the exception says. -/
  | badRequest (error : Option OperationExn)
  | page (errors : List ModelError)
  /-- `status` is the `StatusMessage` for the next page. -/
  | redirectToPage (pageName : Option String) (id : Option Int) (status : Option (String × List Nat))
  /-- Nothing handles the exception. -/
  | failed (e : OperationExn)

inductive Next where
  | answer (response : Response)
  | call (operation : Operation)

/-! ## Management -/

def manageAction (id userId : Int) : String → Option Operation
  | "Approve" => some (.set id userId (.approval true))
  | "Disapprove" => some (.set id userId (.approval false))
  | "InCompetition" => some (.set id userId (.outOfCompetition false))
  | "OutOfCompetition" => some (.set id userId (.outOfCompetition true))
  | "Disqualify" => some (.set id userId (.disqualification true))
  | "CancelDisqualification" => some (.set id userId (.disqualification false))
  | "Delete" => some (.delete id userId)
  | _ => none

def Manage.onPostAsync (user : SignedIn) (id : Int) : ManagePost → Op Next
  | .action userId action =>
    if action = "Manage" then
      if !user.isAdmin then pure (.answer .forbid)
      else do
        let any ← Work.query fun db => db.competitors.any fun x => x.id == userId && x.contestId == id
        return .answer (if any then .redirectToPage (some "/Users/Manage") (some userId) none else .notFound)
    else
      match manageAction id userId action with
      | some operation => pure (.call operation)
      | none => pure (.answer (.badRequest none))
  | .approveAll => pure (.call (.approveAll id))
  | .deleteWithoutSubmissions => pure (.call (.deleteWithoutSubmissions id))
  | .uploadParticipants file =>
    match file with
    | none => pure (.answer (.badRequest none))
    | some file =>
      if file.length = 0 then pure (.answer (.badRequest none))
      else pure (.call (.import id (participantNames file.text)))
  | .uploadLogins file =>
    match file with
    | none => pure (.answer (.badRequest none))
    | some file =>
      match readLogins [] (readLines file.text) with
      | none => pure (.answer (.badRequest (some (.operationValidation "The file contains duplicate logins." []))))
      | some logins => pure (.call (.assignLogins id logins))
  | .createRandomLogins random => pure (.call (.generateLogins id random))
  | .removeLogins => pure (.call (.removeLogins id))

/-! ## Registration -/

section Registration

variable (culture : Domain.Culture) (user : SignedIn)

def visibleContest (id : Int) (db : Db) : Option Contest := (db.contests.find? id).filter (!·.isHidden)

structure LoadedUser where
  competitor : Option Competitor
  hasGroup : Bool
  errors : List ModelError

def profileField (name : String) (missing : Bool) : List ModelError :=
  if missing then [⟨"", "The {0} field in the profile must be filled in.", [name]⟩] else []

def profileErrors (user : OlympUser) (organization : Option Organization) : List ModelError :=
  let errors := profileField "First name" user.firstName.isNone ++ profileField "Last name" user.lastName.isNone ++
    profileField "University" organization.isNone
  if errors.isEmpty then [] else errors ++ [⟨"CompetitorName", "Registration information is incorrect.", []⟩]

/-- The user with its competitors in the contest, of which there may be one. -/
def loaded (contestId : Int) (db : Db) : Except OperationExn LoadedUser :=
  match db.olympUsers.find? (·.id == user.userId) with
  | none => .error .entityNotFound
  | some olympUser => (singleOrDefault (competitorsWith contestId user.userId db)).map fun competitor =>
    { competitor := competitor
      hasGroup := competitor.isNone && olympUser.details.isSome
      errors := if competitor.isSome then []
        else profileErrors olympUser (olympUser.organizationId.bind db.organizations.find?) }

def loadUserAsync (contestId : Int) : Op LoadedUser := Work.access fun db => (loaded user contestId db).map (·, db)

/-- `OnPostCreateAsync` after its first query. -/
def Registration.onPostCreateAsync (id : Int) (ooc : Bool) : Option Contest → Op Next
  | none => pure (.answer .notFound)
  | some contest =>
    if contest.isAcm culture then pure (.answer .forbid)
    else do
      let loaded ← loadUserAsync user contest.id
      let now ← Work.now
      return if now > contest.endTime || loaded.competitor.isSome || (!loaded.hasGroup && !ooc) then .answer .forbid
        else if !loaded.errors.isEmpty then .answer (.page loaded.errors)
        else .call (.registerIndividual id user.userId ooc)

/-- `OnPostDeleteAsync` after its first query. -/
def Registration.onPostDeleteAsync (id : Int) : Option Contest → Op Next
  | none => pure (.answer .notFound)
  | some contest =>
    if contest.isAcm culture then pure (.answer .forbid)
    else do
      let loaded ← loadUserAsync user contest.id
      let now ← Work.now
      return match loaded.competitor with
        | none => .answer .forbid
        | some competitor => if now ≥ contest.startTime then .answer .forbid else .call (.delete id competitor.id)

/-! ## Teams -/

def isLatin (c : Char) : Bool := ('A' ≤ c && c ≤ 'Z') || ('a' ≤ c && c ≤ 'z')

/-- `[A-Za-z]+([- ][A-Za-z]+)*`. -/
def isTeamName (text : String) : Bool :=
  (text.toList.splitOnP fun c => c == '-' || c == ' ').all fun word => !word.isEmpty && word.all isLatin

def isParticipantChar (c : Char) : Bool :=
  ('А' ≤ c && c ≤ 'Я') || c == 'Ё' || ('а' ≤ c && c ≤ 'я') || c == 'ё' || isLatin c ||
  ('0' ≤ c && c ≤ '9') || c == '-' ||
    c == ' '

/-- `[А-ЯЁа-яёA-Za-z0-9- ]+`. -/
def isParticipant (text : String) : Bool := !text.isEmpty && text.toList.all isParticipantChar

def maxLength (key name : String) (maximum : Nat) (text : Option String) : List ModelError :=
  if text.all fun text => decide ((ordinal text).length ≤ maximum) then []
  else [⟨key, "The field {0} must be a string with a maximum length of {1}.", [name, toString maximum]⟩]

/-- `[RegularExpression]`: null and the empty string pass. -/
def matchesAll (key name message : String) (isMatch : String → Bool) (text : Option String) : List ModelError :=
  if text.all fun text => text.isEmpty || isMatch text then [] else [⟨key, message, [name]⟩]

def latinMessage : String :=
    "The {0} field must contain Latin letters, with words separated by a single space or hyphen."

def participantMessage : String := "The {0} field may contain only Russian or Latin letters, digits, spaces or hyphens."

def participantErrors (key name : String) (text : Option String) : List ModelError :=
  required key name (text.all isBlank) ++ maxLength key name 32 text ++
    matchesAll key name participantMessage isParticipant text

def TeamInput.attributes (input : TeamInput) : List ModelError :=
  required "Input.TeamPrefix" "University (team prefix)" (input.teamPrefix.all isBlank) ++
    maxLength "Input.TeamPrefix" "University (team prefix)" 32 input.teamPrefix ++
    matchesAll "Input.TeamPrefix" "University (team prefix)" latinMessage isTeamName input.teamPrefix ++
    (if input.teamNumber.all fun n => decide (1 ≤ n ∧ n ≤ 32) then []
      else [⟨"Input.TeamNumber", "The field {0} must be between {1} and {2}.", ["Team number", "1", "32"]⟩]) ++
    maxLength "Input.TeamSuffix" "Name (team suffix)" 32 input.teamSuffix ++
    matchesAll "Input.TeamSuffix" "Name (team suffix)" latinMessage isTeamName input.teamSuffix ++
    participantErrors "Input.Participant1" "Participant 1" input.participant1 ++
    participantErrors "Input.Participant2" "Participant 2" input.participant2 ++
    participantErrors "Input.Participant3" "Participant 3" input.participant3

def idOf (text : Option String) : Option Int := text.bind tryParseInt

/-- A participant given by number is one of the organization's. -/
def memberError (participants : List OlympUser) (key : String) (text : Option String) : List ModelError :=
  if (idOf text).all fun id => participants.any (·.id == id) then [] else [⟨key, "Invalid value", []⟩]

def mustDiffer : ModelError := ⟨"", "Participants must be different.", []⟩

def TeamInput.participants (input : TeamInput) :
    List (Option String) := [input.participant1, input.participant2, input.participant3]

/-- The numbers of the participants that were found. -/
def TeamInput.memberIds (input : TeamInput) (participants : List OlympUser) : List Int :=
  (input.participants.filterMap idOf).filter fun id => participants.any (·.id == id)

/-- `Validate`, before the question for confirmation. -/
def TeamInput.memberErrors (input : TeamInput) (participants : List OlympUser) : List ModelError :=
  let memberIds := input.memberIds participants
  memberError participants "Input.Participant1" input.participant1 ++
    memberError participants "Input.Participant2" input.participant2 ++
    memberError participants "Input.Participant3" input.participant3 ++
    (if memberIds.eraseDups.length ≠ memberIds.length then [mustDiffer] else []) ++
    if input.participant1 == input.participant2 || input.participant1 == input.participant3 ||
      input.participant2 == input.participant3 then [mustDiffer] else []

/-- All that `ModelState` has after `Validate`. -/
def TeamInput.errors (input : TeamInput) (participants : List OlympUser) (binding : List ModelError) :
    List ModelError :=
  let errors := withBinding binding input.attributes ++ input.memberErrors participants
  if errors.isEmpty && !input.confirmation then [⟨"", "Please confirm the correctness of the data.", []⟩] else errors

def TeamInput.teamName (input : TeamInput) : String :=
  input.teamPrefix.getD "" ++ (input.teamNumber.elim "" fun n => " " ++ toString n) ++
    input.teamSuffix.elim "" fun suffix => ": " ++ suffix

/-- `Include(x => x.Users.Where(x => x is OlympUser && !x.IsHidden))`. -/
def organizationUsers (orgId : Int) (db : Db) : Option (List OlympUser) :=
  (db.organizations.find? orgId).map fun _ => db.olympUsers.filter fun x =>
    x.organizationId == some orgId && !x.isHidden

/-- `OnPostAsync` after its first query. -/
def Teams.Create.onPostAsync (id orgId : Int) (input : TeamInput) (binding : List ModelError)
    (contest : Option Contest) : Op Next := do
  let organization ← Work.query (organizationUsers orgId)
  match contest, organization with
  | some contest, some participants =>
    if !contest.isAcm culture then pure (.answer .notFound)
    else if !user.coachOrgs.contains orgId then pure (.answer .forbid)
    else do
      let now ← Work.now
      return if now > contest.endTime then .answer .forbid
        else if !(input.errors participants binding).isEmpty then .answer (.page (input.errors participants binding))
        else .call (.registerTeam id orgId user.userId input.teamName (input.participants.map (·.getD "")))
  | _, _ => pure (.answer .notFound)

def coaches (team : Competitor) : Except OperationExn Bool :=
  match team.organizationId with
  | none => .error (.other (.invalidOperation "Nullable object must have a value."))
  | some orgId => .ok (user.coachOrgs.contains orgId)

/-- `OnPostDeleteAsync` after its first query. -/
def Teams.onPostDeleteAsync (id teamId : Int) (contest : Option Contest) : Op Next := do
  let team ← Work.query fun db => db.competitors.find? fun x => x.contestId == id && x.id == teamId
  match contest, team with
  | some contest, some team =>
    if !contest.isAcm culture then pure (.answer .notFound)
    else do
      let now ← Work.now
      if now ≥ contest.startTime || team.isApproved || team.coachId != some user.userId then pure (.answer .forbid)
      else do
        let coaches ← Work.lift (coaches user team)
        return if coaches then .call (.delete id team.id) else .answer .forbid
  | _, _ => pure (.answer .notFound)

end Registration

/-! ### What the form accepts -/

theorem isBlank_false {text : String} {c : Char} (hc : c ∈ text.toList) (h : isWhiteSpace c = false) :
    isBlank text = false := by
  unfold isBlank
  rw [List.all_eq_false]
  exact ⟨c, hc, by rw [h]; exact Bool.false_ne_true⟩

theorem participantErrors_nil {key name : String} {text : Option String} (h : participantErrors key name text = []) :
    ∃ participant, text = some participant ∧ isBlank participant = false ∧ ';' ∉ participant.toList := by
  simp only [participantErrors, List.append_eq_nil_iff] at h
  obtain ⟨⟨hrequired, -⟩, hmatch⟩ := h
  cases text with
  | none => cases hrequired
  | some participant =>
    have hblank : isBlank participant = false := by
      unfold required at hrequired
      split at hrequired
      · cases hrequired
      · next hne => exact Bool.eq_false_iff.mpr hne
    refine ⟨participant, rfl, hblank, fun hmem => ?_⟩
    unfold matchesAll at hmatch
    split at hmatch
    · next hall =>
      rw [Option.all_some, Bool.or_eq_true] at hall
      rcases hall with hempty | hchars
      · have hnil : participant.toList = [] := by simpa using hempty
        rw [hnil] at hmem
        cases hmem
      · have hchar := List.all_eq_true.mp (Bool.and_eq_true_iff.mp hchars).2 ';' hmem
        exact absurd hchar (by decide)
    · cases hmatch

theorem memberError_nil {participants : List OlympUser} {key : String} {text : Option String}
    (h : memberError participants key text = []) :
    ∀ id, idOf text = some id → participants.any (·.id == id) = true := by
  intro id hid
  unfold memberError at h
  split at h
  · next hall =>
    rw [hid] at hall
    exact hall
  · cases h

/-- What the form accepts, the checks of the service accept. -/
theorem team_accepted {input : TeamInput} {participants : List OlympUser} {binding : List ModelError}
    (h : input.errors participants binding = []) :
    let texts := input.participants.map (·.getD "")
    (isBlank input.teamName || texts.length != 3 || texts.any fun x => isBlank x || x.toList.contains ';') = false ∧
      ((texts.filterMap tryParseInt).eraseDups.length != (texts.filterMap tryParseInt).length ||
        texts.eraseDups.length != texts.length) = false := by
  obtain ⟨teamPrefix, teamNumber, teamSuffix, participant1, participant2, participant3, confirmation⟩ := input
  unfold TeamInput.errors at h
  dsimp only at h
  split at h
  · cases h
  · obtain ⟨hfields, hmembers⟩ := List.append_eq_nil_iff.mp h
    obtain ⟨-, hattributes⟩ := withBinding_nil hfields
    simp only [TeamInput.attributes, List.append_eq_nil_iff] at hattributes
    obtain ⟨⟨⟨⟨⟨⟨⟨⟨huniversity, -⟩, -⟩, -⟩, -⟩, -⟩, h₁⟩, h₂⟩, h₃⟩ := hattributes
    obtain ⟨text₁, rfl, hblank₁, hsemicolon₁⟩ := participantErrors_nil h₁
    obtain ⟨text₂, rfl, hblank₂, hsemicolon₂⟩ := participantErrors_nil h₂
    obtain ⟨text₃, rfl, hblank₃, hsemicolon₃⟩ := participantErrors_nil h₃
    simp only [TeamInput.memberErrors, List.append_eq_nil_iff] at hmembers
    obtain ⟨⟨⟨⟨m₁, m₂⟩, m₃⟩, hids⟩, htexts⟩ := hmembers
    have hname : isBlank (TeamInput.teamName ⟨teamPrefix, teamNumber, teamSuffix, some text₁, some text₂, some text₃,
        confirmation⟩) = false := by
      unfold required at huniversity
      split at huniversity
      · cases huniversity
      · next hne =>
        cases teamPrefix with
        | none => exact absurd rfl hne
        | some text =>
          obtain ⟨c, hc, hspace⟩ := List.all_eq_false.mp (Bool.eq_false_iff.mpr hne : isBlank text = false)
          refine isBlank_false (c := c) ?_ (Bool.eq_false_iff.mpr hspace)
          unfold TeamInput.teamName
          rw [String.toList_append, String.toList_append]
          exact List.mem_append_left _ (List.mem_append_left _ hc)
    have hfound : (TeamInput.participants ⟨teamPrefix, teamNumber, teamSuffix, some text₁, some text₂, some text₃,
        confirmation⟩).filterMap idOf = [text₁, text₂, text₃].filterMap tryParseInt := rfl
    have hmemberIds : TeamInput.memberIds ⟨teamPrefix, teamNumber, teamSuffix, some text₁, some text₂, some text₃,
        confirmation⟩ participants = [text₁, text₂, text₃].filterMap tryParseInt := by
      unfold TeamInput.memberIds
      rw [hfound, List.filter_eq_self]
      intro id hid
      obtain ⟨text, htext, hparse⟩ := List.mem_filterMap.mp hid
      simp only [List.mem_cons, List.not_mem_nil, or_false] at htext
      rcases htext with rfl | rfl | rfl
      · exact memberError_nil m₁ id hparse
      · exact memberError_nil m₂ id hparse
      · exact memberError_nil m₃ id hparse
    rw [hmemberIds] at hids
    have hdistinct : [text₁, text₂, text₃].Nodup := by
      split at htexts
      · cases htexts
      · next hne =>
        simp only [Bool.or_eq_true, beq_iff_eq, Option.some.injEq, not_or] at hne
        simp only [List.nodup_cons, List.mem_cons, List.not_mem_nil, or_false, not_or, not_false_eq_true,
          List.nodup_nil, and_true]
        exact ⟨⟨hne.1.1, hne.1.2⟩, hne.2⟩
    have hnodup : ([text₁, text₂, text₃].filterMap tryParseInt).eraseDups.length =
        ([text₁, text₂, text₃].filterMap tryParseInt).length := by
      split at hids
      · cases hids
      · next heq => exact not_not.mp heq
    refine ⟨?_, ?_⟩
    · show (isBlank _ || [text₁, text₂, text₃].length != 3 || [text₁, text₂, text₃].any _) = false
      simp [hname, hblank₁, hblank₂, hblank₃, hsemicolon₁, hsemicolon₂, hsemicolon₃]
    · show ((([text₁, text₂, text₃].filterMap tryParseInt).eraseDups.length !=
        ([text₁, text₂, text₃].filterMap tryParseInt).length) ||
          ([text₁, text₂, text₃].eraseDups.length != [text₁, text₂, text₃].length)) = false
      rw [hnodup, Lib.Query.length_eraseDups_iff.mpr hdistinct, bne_self_eq_false, bne_self_eq_false]
      rfl

/-! ## Requests in any order -/

inductive Stage where
  | received
  /-- The first query of the page is answered. -/
  | contestRead (contest : Option Contest)
  | serving (call : Call)
  | answered (response : Response)

structure Page where
  user : SignedIn
  request : Request
  stage : Stage

structure St where
  db : Db
  pages : List Page

def init (db : Db) : St := ⟨db, []⟩

inductive Ev where
  | request (user : SignedIn) (request : Request)
  /-- The request goes on to the next place where others can get in. -/
  | advance (a : Nat) (o : Outside OperationExn)

/-- The policies of the pages, and `CanManage`. -/
def SignedIn.mayAsk (user : SignedIn) : Request → Bool
  | .manage id _ => user.canManage id
  | .register _ _ | .unregister _ => !user.isCompetitor
  | .createTeam _ _ _ _ | .deleteTeam _ _ => !user.coachOrgs.isEmpty

/-- What `OnPageHandlerExecutionAsync` makes of an exception. -/
def Request.handle (request : Request) (e : OperationExn) : Response :=
  match e with
  | .entityNotFound => .notFound
  | .identityOperation _ => .badRequest (some e)
  | .operationValidation key args =>
    match request with
    | .createTeam _ _ _ _ => .page [⟨"", key, args⟩]
    | _ => .badRequest (some e)
  | .other _ => .failed e

def Request.done : Request → Value → Response
  | .manage _ _, .unit => .redirectToPage none none none
  | .manage _ _, .count n => .redirectToPage none none (some ("Deleted participants: {0}.", [n]))
  | .manage _ _, .summary summary =>
    .redirectToPage none none
      (some ("Added participants: {0}; already existed: {1}.", [summary.added, summary.existing]))
  | .register id _, _ | .unregister id, _ => .redirectToPage (some "/Contests/Competitors/Index") (some id) none
  | .createTeam id _ _ _, _ => .redirectToPage (some "./Index") (some id) none
  | .deleteTeam _ _, _ => .redirectToPage none none none

/-- What a page that has read the contest does next. -/
def Request.second (culture : Domain.Culture) (user : SignedIn) (contest : Option Contest) : Request → Op Next
  | .manage id post => Manage.onPostAsync user id post
  | .register id ooc => Registration.onPostCreateAsync culture user id ooc contest
  | .unregister id => Registration.onPostDeleteAsync culture user id contest
  | .createTeam id orgId input binding => Teams.Create.onPostAsync culture user id orgId input binding contest
  | .deleteTeam id teamId => Teams.onPostDeleteAsync culture user id teamId contest

def Request.readsContest : Request → Bool
  | .manage _ _ => false
  | _ => true

section Steps

variable (service : CompetitorManagementService)

/-- Some work of a page, and where it leads. -/
def Page.work {α : Type} (page : Page) (w : Op α) (next : α → Stage) (o : Outside OperationExn) (db : Db) :
    Stage × Db :=
  match w o ⟨db, 0⟩ with
  | (.ok a, s) => (next a, s.db)
  | (.error e, s) => (.answered (page.request.handle e), s.db)

def Next.stage : Next → Stage
  | .answer response => .answered response
  | .call operation => .serving (.start operation)

/-- The page has the answer when the call is over. -/
def Page.serve (page : Page) : Call → Stage
  | .over (.ok value) => .answered (page.request.done value)
  | .over (.error e) => .answered (page.request.handle e)
  | call => .serving call

def Page.advance (page : Page) (o : Outside OperationExn) (db : Db) : Stage × Db :=
  match page.stage with
  | .received =>
    if !page.user.mayAsk page.request then (.answered .forbid, db)
    else if page.request.readsContest then page.work (Work.query (visibleContest page.request.id)) .contestRead o db
    else page.work (page.request.second service.culture page.user none) Next.stage o db
  | .contestRead contest => page.work (page.request.second service.culture page.user contest) Next.stage o db
  | .serving call =>
    let (call, db) := call.advance service o db
    (page.serve call, db)
  | .answered response => (.answered response, db)

def step (s : St) : Ev → Option St
  | .request user request => some { s with pages := s.pages ++ [⟨user, request, .received⟩] }
  | .advance a o =>
    match s.pages[a]? with
    | none => none
    | some page =>
      let (stage, db) := page.advance service o s.db
      some ⟨db, s.pages.set a { page with stage := stage }⟩

end Steps

end OlympSystem.Site.Accounts.CompetitorPages
