/-
  OlympSystem.Domain.StandingData — `Standing.StandingData` (`Olymp.Domain/Standing.cs`).

  The payload is a query over the submissions of the problems in the order of the
  collections. `DataClock` is what the query reads of its environment: the clock, the
  offset at which `FreezeTime` shows its time of day, and `(long)TotalMilliseconds`.
  `Texts` are the names the payload copies; reading `MemberNames` can throw.

  Proved:
  - `submits_groups`: the attempts listed, group by group of a user and a problem number.
  - `upToSuccess_map`: what a group lists, from the attempts.
  - `submits_perm` / `mem_submits`: what is listed in all.
-/

import OlympSystem.Domain.Models
import OlympSystem.Exceptions

namespace OlympSystem.Domain.StandingData

open Lib.Query

def ticksPerDay : Int := 864000000000

structure DataClock where
  now : Int
  freezeOffset : Int
  milliseconds : Int → Int

structure Texts where
  contestName : String
  problemName : Int → String
  /-- `MemberNames ?? []` of the competitor with the id. -/
  memberNames : Int → Except Exn (List String)

structure DataRequest where
  freeze : Bool
  lastUpdate : Option Int
  startTime : Option Int
  deriving DecidableEq, Repr

structure ProblemInfo where
  id : Int
  number : Int
  name : String
  deriving DecidableEq, Repr

structure UserInfo where
  id : Int
  name : String
  ooc : Bool
  dsq : Bool
  vrt : Bool
  members : Except Exn (List String)

structure SubmitInfo where
  id : Int
  user : Int
  problem : Int
  time : Int
  result : Int
  deriving DecidableEq, Repr

structure Payload where
  name : String
  endTime : Int
  virtual : Bool
  problems : List ProblemInfo
  users : List UserInfo
  submits : List SubmitInfo

/-- A submission with the number of its problem. -/
structure Attempt where
  problem : Int
  submission : Submission
  deriving DecidableEq, Repr

/-- `FreezeTime.Value.TimeOfDay`: the time on the clock since midnight. -/
def timeOfFreeze (clock : DataClock) (contest : Contest) : Option Int :=
  contest.freezeTime.map fun freezeTime => (freezeTime + clock.freezeOffset) % ticksPerDay

def attempts (contest : Contest) : List Attempt :=
  contest.problems.flatMap fun problem => problem.submissions.map fun submission => ⟨problem.number, submission⟩

section Query

variable (clock : DataClock) (contest : Contest) (request : DataRequest)

def currentTime : Int :=
  let currentTime := clock.now - request.startTime.getD contest.startTime
  if contest.duration < currentTime then contest.duration else currentTime

/-- `submission.CommitTime - (submission.User is Competitor ? contest.StartTime : startTime)`. -/
def elapsed (submission : Submission) : Option Int :=
  match submission.user.competitor with
  | some _ => some (submission.commitTime - contest.startTime)
  | none => request.startTime.map (submission.commitTime - ·)

def intTime (submission : Submission) : Int := clock.milliseconds ((elapsed contest request submission).getD 0)

def isVisible (attempt : Attempt) : Bool :=
  !attempt.submission.user.isHidden && !attempt.submission.isHidden &&
    (elapsed contest request attempt.submission).any (fun time =>
      decide (0 ≤ time) && decide (time ≤ currentTime clock contest request)) &&
    request.lastUpdate.all fun lastUpdate => decide (lastUpdate < intTime clock contest request attempt.submission)

/-- `time < contest.TimeOfFreeze`, which null makes false. -/
def isShown (submission : Submission) : Bool :=
  (elapsed contest request submission).any fun time => (timeOfFreeze clock contest).any (decide <| time < ·)

def result (submission : Submission) : Int :=
  if !request.freeze || !contest.isFreeze clock.now || isShown clock contest request submission then
    if submission.statusCode = 2 then 1 else 0
  else -1

def submitInfo (attempt : Attempt) : SubmitInfo where
  id := attempt.submission.id
  user := attempt.submission.userId
  problem := attempt.problem
  time := intTime clock contest request attempt.submission
  result := result clock contest request attempt.submission

def visible : List Attempt := (attempts contest).filter (isVisible clock contest request)

def submissions : List SubmitInfo := (visible clock contest request).map (submitInfo clock contest request)

end Query

def groupKey (info : SubmitInfo) : Int × Int := (info.user, info.problem)

/-- A group up to its first success in the order of the group, `fs`. -/
def upToSuccess (group : List SubmitInfo) : List SubmitInfo :=
  match group.find? fun info => info.result == 1 with
  | none => group
  | some fs => group.filter fun info => decide (info.time ≤ fs.time)

def submits (submissions : List SubmitInfo) : List SubmitInfo :=
  orderBy (byKey SubmitInfo.time) ((groupBy groupKey submissions).flatMap fun group => upToSuccess group.2)

def isOlympUser (user : User) : Bool := user.competitor.isNone

/-- The users of the listed submissions are those of the query before the groups are cut. -/
def users (contest : Contest) (request : DataRequest) (submissions : List SubmitInfo) : List User :=
  let olympUsers := (contest.problems.flatMap fun problem => problem.submissions.map Submission.user).filter isOlympUser
  let joined := olympUsers.flatMap fun user => (groupJoin user.id SubmitInfo.user submissions).map fun _ => user
  unionBy User.id joined [] ++ if request.lastUpdate.isNone then contest.competitors.map Competitor.user else []

def userInfo (texts : Texts) (user : User) : UserInfo where
  id := user.id
  name := user.name
  ooc := user.competitor.elim true CompetitorInfo.isOutOfCompetition
  dsq := user.isDisqualified
  vrt := user.competitor.isNone
  members := match user.competitor with
    | some _ => texts.memberNames user.id
    | none => .ok []

def problemsInfo (texts : Texts) (contest : Contest) : List ProblemInfo :=
  (orderBy (byKey Problem.number) contest.problems).map fun problem =>
    ⟨problem.id, problem.number, texts.problemName problem.id⟩

def standingData (clock : DataClock) (texts : Texts) (contest : Contest) (request : DataRequest) : Payload where
  name := texts.contestName
  endTime := request.startTime.getD contest.startTime + contest.duration
  virtual := request.startTime.isSome
  problems := problemsInfo texts contest
  users := (users contest request (submissions clock contest request)).map (userInfo texts)
  submits := submits (submissions clock contest request)

/-! ## What is listed -/

/-- The group of an attempt: its user and its problem's number. -/
def attemptKey (attempt : Attempt) : Int × Int := (attempt.submission.userId, attempt.problem)

section Groups

variable (clock : DataClock) (contest : Contest) (request : DataRequest)

def groupOf (key : Int × Int) : List Attempt :=
  (visible clock contest request).filter fun attempt => decide (attemptKey attempt = key)

def keys : List (Int × Int) := (groupBy attemptKey (visible clock contest request)).map Prod.fst

theorem submits_groups :
    submits (submissions clock contest request) =
      orderBy (byKey SubmitInfo.time) ((keys clock contest request).flatMap fun key =>
        upToSuccess ((groupOf clock contest request key).map (submitInfo clock contest request))) := by
  unfold submits submissions keys groupBy
  rw [List.flatMap_map, List.map_map, List.map_map, List.flatMap_map]
  congr 1
  apply List.flatMap_congr
  intro key _
  dsimp only
  rw [List.filter_map]
  rfl

/-- What a group lists: all of it, or what is not later than its first success. -/
theorem upToSuccess_map (group : List Attempt) :
    upToSuccess (group.map (submitInfo clock contest request)) =
      match group.find? fun attempt => result clock contest request attempt.submission == 1 with
      | none => group.map (submitInfo clock contest request)
      | some fs => (group.filter fun attempt =>
          decide (intTime clock contest request attempt.submission ≤ intTime clock contest request fs.submission)).map
            (submitInfo clock contest request) := by
  unfold upToSuccess
  rw [List.find?_map]
  show (match (group.find? fun attempt => result clock contest request attempt.submission == 1).map
    (submitInfo clock contest request) with | none => _ | some fs => _) = _
  cases group.find? fun attempt => result clock contest request attempt.submission == 1 with
  | none => rfl
  | some fs =>
    show (group.map (submitInfo clock contest request)).filter _ = _
    rw [List.filter_map]
    rfl

/-- An attempt is listed: it is not later than the first success of its group. -/
def isListed (attempt : Attempt) : Bool :=
  ((groupOf clock contest request (attemptKey attempt)).find? fun other =>
    result clock contest request other.submission == 1).all fun fs =>
      decide (intTime clock contest request attempt.submission ≤ intTime clock contest request fs.submission)

theorem upToSuccess_group (key : Int × Int) :
    upToSuccess ((groupOf clock contest request key).map (submitInfo clock contest request)) =
      (((visible clock contest request).filter (isListed clock contest request)).filter fun attempt =>
        decide (attemptKey attempt = key)).map
        (submitInfo clock contest request) := by
  have hcomm : ((visible clock contest request).filter (isListed clock contest request)).filter
      (fun attempt => decide (attemptKey attempt = key)) =
      (groupOf clock contest request key).filter (isListed clock contest request) := by
    unfold groupOf
    rw [List.filter_filter, List.filter_filter]
    exact List.filter_congr fun attempt _ => Bool.and_comm _ _
  have hkey : ∀ attempt ∈ groupOf clock contest request key, attemptKey attempt = key :=
    fun attempt hmem => of_decide_eq_true (List.mem_filter.mp hmem).2
  rw [hcomm, upToSuccess_map]
  cases hfind : (groupOf clock contest request key).find? fun attempt =>
    result clock contest request attempt.submission == 1 with
  | none =>
    dsimp only
    congr 1
    refine (List.filter_eq_self.mpr fun attempt hmem => ?_).symm
    rw [isListed, hkey attempt hmem, hfind, Option.all_none]
  | some fs =>
    dsimp only
    congr 1
    refine List.filter_congr fun attempt hmem => ?_
    rw [isListed, hkey attempt hmem, hfind, Option.all_some]

theorem submits_perm :
    (submits (submissions clock contest request)).Perm
      (((visible clock contest request).filter (isListed clock contest request)).map
        (submitInfo clock contest request)) := by
  rw [submits_groups]
  refine (orderBy_perm _ _).trans ?_
  have hgroups := flatMap_filter_perm attemptKey (keys clock contest request)
    ((visible clock contest request).filter (isListed clock contest request)) (groupBy_keys _ _) (fun attempt hmem =>
      groupBy_key_mem (List.mem_filter.mp hmem).1)
  refine (List.Perm.of_eq ?_).trans (hgroups.map (submitInfo clock contest request))
  rw [List.map_flatMap]
  exact List.flatMap_congr fun key _ => upToSuccess_group clock contest request key

theorem mem_submits {info : SubmitInfo} :
    info ∈ submits (submissions clock contest request) ↔ ∃ attempt ∈ visible clock contest request,
      isListed clock contest request attempt = true ∧ submitInfo clock contest request attempt = info := by
  rw [(submits_perm clock contest request).mem_iff, List.mem_map]
  constructor
  · intro h
    obtain ⟨attempt, hmem, heq⟩ := h
    obtain ⟨hvisible, hlisted⟩ := List.mem_filter.mp hmem
    exact ⟨attempt, hvisible, hlisted, heq⟩
  · intro h
    obtain ⟨attempt, hvisible, hlisted, heq⟩ := h
    exact ⟨attempt, List.mem_filter.mpr ⟨hvisible, hlisted⟩, heq⟩

end Groups

end OlympSystem.Domain.StandingData
