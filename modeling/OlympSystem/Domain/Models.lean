/-
  OlympSystem.Domain.Models — users, submissions, problems and contests as the
  standings read them (`Olymp.Domain/Models`, `DomainObjects.cs`).

  A moment (`DateTimeOffset`) or a duration (`TimeSpan`) is a number of ticks of 100 ns, a
  moment in UTC. Entities are identified by their ids, as the object graph of one query with identity resolution
  holds one object for each. A competitor is a user (`Competitor : User`).
-/

import Mathlib.Data.String.Basic
import OlympSystem.Lib.Query

namespace OlympSystem.Domain

open Lib.Query

def ticksPerMinute : Int := 600000000

structure CompetitorInfo where
  isApproved : Bool
  isOutOfCompetition : Bool
  deriving DecidableEq, Repr

structure User where
  id : Int
  name : String
  isDisqualified : Bool
  isHidden : Bool
  /-- The fields of a `Competitor`; an `OlympUser` has none. -/
  competitor : Option CompetitorInfo
  deriving DecidableEq, Repr

structure Competitor where
  user : User
  info : CompetitorInfo
  is_competitor : user.competitor = some info
  deriving DecidableEq, Repr

structure Submission where
  id : Int
  statusCode : Int
  isHidden : Bool
  commitTime : Int
  score : Option Int
  user : User
  problemId : Int
  deriving DecidableEq, Repr

def Submission.userId (s : Submission) : Int := s.user.id

structure Problem where
  id : Int
  number : Int
  submissions : List Submission
  submissions_of : ∀ s ∈ submissions, s.problemId = id
  deriving Repr

/-- The largest number of elements of a collection, `Int32.MaxValue`. -/
def maxCount : Nat := 2147483647

structure Contest where
  abbr : String
  startTime : Int
  endTime : Int
  freezeTime : Option Int
  problems : List Problem
  competitors : List Competitor
  problem_ids : (problems.map Problem.id).Nodup
  problem_count : problems.length ≤ maxCount
  deriving Repr

/-- What the current culture decides about strings: `StartsWith`, and `Compare ≤ 0`. -/
structure Culture where
  startsWith : String → String → Bool
  compareLe : String → String → Bool
  compareLe_total : TotalPreorder compareLe

def Culture.ordinal : Culture where
  startsWith text start := start.toList.isPrefixOf text.toList
  compareLe := byKey id
  compareLe_total := byKey_totalPreorder id

namespace Contest

def duration (contest : Contest) : Int := contest.endTime - contest.startTime

def isFreeze (now : Int) (contest : Contest) : Bool :=
  match contest.freezeTime with
  | none => false
  | some freezeTime => decide (freezeTime < now)

def isSchool (culture : Culture) (contest : Contest) : Bool := culture.startsWith contest.abbr "school"

end Contest

end OlympSystem.Domain
