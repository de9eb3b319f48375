/-
  OlympSystem.Domain.Standing — `Standing.NewStanding` (`Olymp.Domain/Standing.cs`).

  Times are exact numbers of ticks up to the summary time of a row, which the source
  computes in `double` milliseconds: `Milliseconds` is that arithmetic, and
  `Milliseconds.exact` the exact one. `now` is the clock `Contest.IsFreeze` reads.

  The query of `NewStanding` is cut into its parts, each under the source's name:
  the users, the submissions, the first successes, one cell, one row.

  Proved:
  - `newStanding_ok`: the rows are the sorted rows of the displayed users, when none of
    them throws.
  - `standingSubmissions_perm`: what one user has sent in for one problem of the contest.
-/

import OlympSystem.Domain.Models
import OlympSystem.Exceptions
import OlympSystem.Lib.Checked

namespace OlympSystem.Domain.Standing

open Lib.Query Lib.Checked

def penalty : Int := 20

def maxScore : Int := 100

/-- The arithmetic of `TotalMilliseconds`, `Sum` and `FromMilliseconds`. -/
structure Milliseconds where
  Dbl : Type
  zero : Dbl
  totalMilliseconds : Int → Dbl
  sum : List Dbl → Dbl
  fromMilliseconds : Dbl → Except Exn Int

def Milliseconds.exact : Milliseconds := ⟨Int, 0, id, List.sum, .ok⟩

structure UserProblemResult where
  problem : Problem
  isSuccess : Bool
  commitNumber : Int
  lastCommitTime : Int
  isFirstSuccess : Bool
  score : Int
  maxScore : Int
  deriving Repr

structure UserResult where
  user : User
  score : Int
  summaryTime : Int
  startTime : Int
  problemResults : List UserProblemResult
  deriving Repr

variable (culture : Culture) (ms : Milliseconds) (now : Int)

def UserProblemResult.summaryTime (res : UserProblemResult) (startTime : Int) (penalty : Int) : ms.Dbl :=
  if res.isSuccess then
    ms.totalMilliseconds (res.lastCommitTime - startTime + penalty * (res.commitNumber - 1) * ticksPerMinute)
  else ms.zero

/-! ## One cell -/

/-- `submission.StatusCode == 2 || submission.Score > 0`. -/
def isSuccessful (submission : Submission) : Bool :=
  submission.statusCode == 2 || submission.score.any (decide <| 0 < ·)

def isChecked (submission : Submission) : Bool :=
  !(submission.statusCode == 0 || submission.statusCode == 1 || submission.statusCode == -1)

def bestOrder : Submission → Submission → Bool :=
  thenBy (byNullable Submission.score) (descending (byKey Submission.commitTime))

def success (problemSubmissions : List Submission) : Option Submission :=
  lastOrDefault (orderBy bestOrder (problemSubmissions.filter isSuccessful))

def signSubmissions (problemSubmissions : List Submission) : List Submission :=
  match success problemSubmissions with
  | some success => (problemSubmissions.filter isChecked).filter (decide <| ·.commitTime ≤ success.commitTime)
  | none => problemSubmissions.filter isChecked

/-- `LastOrDefault` of moments: the default is the moment 0. -/
def lastCommitTime (submissions : List Submission) : Int :=
  (lastOrDefault (orderBy (byKey id) (submissions.map Submission.commitTime))).getD 0

def cellScore (success : Option Submission) : Int :=
  match success with
  | some success => success.score.getD 1
  | none => 0

def userProblemResult (problem : Problem) (problemSubmissions : List Submission) (first : Bool) :
    UserProblemResult where
  problem := problem
  isSuccess := (success problemSubmissions).isSome
  commitNumber := (signSubmissions problemSubmissions).length
  lastCommitTime := lastCommitTime (signSubmissions problemSubmissions)
  isFirstSuccess := first
  score := cellScore (success problemSubmissions)
  maxScore := maxScore

def userProblemStanding (problems : List Problem) (submissions : List Submission)
    (firstSuccess : Option (List Int)) : List UserProblemResult :=
  problems.map fun problem =>
    userProblemResult problem (groupJoin problem.id Submission.problemId submissions)
      (firstSuccess.any (·.contains problem.id))

/-! ## The parts of the query -/

def standingStart (contest : Contest) (startTime : Option Int) : Int := startTime.getD contest.startTime

def isDisplayed (official : Bool) (user : Competitor) : Bool :=
  user.info.isApproved && !user.user.isHidden &&
    (!official || (!user.info.isOutOfCompetition && !user.user.isDisqualified))

def standingCompetitors (contest : Contest) (official : Bool) (startTime : Option Int) : List User :=
  match startTime with
  | some _ => []
  | none => (contest.competitors.filter (isDisplayed official)).map Competitor.user

def standingProblems (contest : Contest) : List Problem := orderBy (byKey Problem.number) contest.problems

def inWindow (contest : Contest) (start : Int) (submission : Submission) : Bool :=
  decide (start ≤ submission.commitTime) && decide (submission.commitTime ≤ start + contest.duration)

def isJudged (submission : Submission) : Bool := !(submission.statusCode == 0) && !(submission.statusCode == 1)

/-- `submission.CommitTime < contest.FreezeTime`, which null makes false. -/
def beforeFreeze (contest : Contest) (submission : Submission) : Bool :=
  contest.freezeTime.any (decide <| submission.commitTime < ·)

def standingSubmissions (contest : Contest) (notFreeze : Bool) (start : Int) : List Submission :=
  let submissions := (((orderBy (byKey Submission.commitTime)
    ((standingProblems contest).flatMap Problem.submissions)).filter (!·.isHidden)).filter
      (inWindow contest start)).filter isJudged
  if contest.isFreeze now && !notFreeze then submissions.filter (beforeFreeze contest) else submissions

def standingUsers (users : List User) (submissions : List Submission) (includeAll : Bool) : List User :=
  if includeAll then unionBy User.id users ((submissions.map Submission.user).filter (!·.isHidden)) else users

def firstSuccess (users : List User) (submissions : List Submission) : List (Int × Int) :=
  (groupBy Submission.problemId (orderBy (byKey Submission.commitTime)
    ((joinOn User.id Submission.userId users submissions).filter (·.statusCode == 2)))).filterMap fun probleminfo =>
      probleminfo.2.head?.map fun submission => (probleminfo.1, submission.userId)

/-- The lookup `firstSuccess[userId]`. -/
def firstSuccessOf (firstSuccess : List (Int × Int)) (userId : Int) : List Int :=
  (firstSuccess.filter (·.2 == userId)).map Prod.fst

def userResult (penalty : Int) (start : Int) (problems : List Problem) (submissions : List Submission)
    (firstSuccess : List (Int × Int)) (user : User) : Except Exn UserResult :=
  let problemResult := userProblemStanding problems (groupJoin user.id Submission.userId submissions)
    (some (firstSuccessOf firstSuccess user.id))
  match sumInt32 (problemResult.map UserProblemResult.score) with
  | none => .error .overflow
  | some score =>
    match ms.fromMilliseconds (ms.sum (problemResult.map (·.summaryTime ms start penalty))) with
    | .error e => .error e
    | .ok summaryTime => .ok ⟨user, score, summaryTime, start, problemResult⟩

/-- `orderby score descending, summaryTime ascending, score ascending, user.Name ascending`. -/
def rowOrder : UserResult → UserResult → Bool :=
  thenBy (descending (byKey UserResult.score)) (thenBy (byKey UserResult.summaryTime)
    (thenBy (byKey UserResult.score) fun a b => culture.compareLe a.user.name b.user.name))

def newStanding (contest : Contest) (includeAll official notFreeze : Bool) (startTime : Option Int) :
    Except Exn (List UserResult) :=
  let penalty := if contest.isSchool culture then 0 else penalty
  let start := standingStart contest startTime
  let submissions := standingSubmissions now contest notFreeze start
  let users := standingUsers (standingCompetitors contest official startTime) submissions includeAll
  (users.mapM (userResult ms penalty start (standingProblems contest) submissions
    (firstSuccess users submissions))).map (orderBy (rowOrder culture))

/-! ## What the parts hold -/

/-- The rows that are sorted, when no row throws. -/
theorem newStanding_ok (contest : Contest) (includeAll official notFreeze : Bool) (startTime : Option Int)
    (row : User → UserResult) :
    let start := standingStart contest startTime
    let submissions := standingSubmissions now contest notFreeze start
    let users := standingUsers (standingCompetitors contest official startTime) submissions includeAll
    (∀ user, userResult ms (if contest.isSchool culture then 0 else penalty) start (standingProblems contest)
      submissions (firstSuccess users submissions) user = .ok (row user)) →
    newStanding culture ms now contest includeAll official notFreeze startTime =
      .ok (orderBy (rowOrder culture) (users.map row)) := by
  intro start submissions users h
  unfold newStanding
  simp only
  rw [mapM_ok fun user _ => h user]
  rfl

theorem rowOrder_totalPreorder : TotalPreorder (rowOrder culture) := by
  have name : TotalPreorder fun a b : UserResult => culture.compareLe a.user.name b.user.name :=
    ⟨fun _ _ => culture.compareLe_total.total _ _, culture.compareLe_total.trans⟩
  exact thenBy_totalPreorder (descending_totalPreorder (byKey_totalPreorder _))
    (thenBy_totalPreorder (byKey_totalPreorder _) (thenBy_totalPreorder (byKey_totalPreorder _) name))

theorem bestOrder_totalPreorder : TotalPreorder bestOrder :=
  thenBy_totalPreorder (byNullable_totalPreorder _) (descending_totalPreorder (byKey_totalPreorder _))

theorem success_mem {l : List Submission} {s : Submission} (h : success l = some s) :
    s ∈ l ∧ isSuccessful s = true :=
  List.mem_filter.mp (last_orderBy bestOrder_totalPreorder h).1

/-- No attempt of a cell is above its success. -/
theorem success_best {l : List Submission} {s : Submission} (h : success l = some s) :
    ∀ b ∈ l, isSuccessful b = true → bestOrder b s = true :=
  fun b hb hsucc => (last_orderBy bestOrder_totalPreorder h).2 b (List.mem_filter.mpr ⟨hb, hsucc⟩)

theorem success_eq_none {l : List Submission} : success l = none ↔ ∀ s ∈ l, isSuccessful s = false := by
  have hiff := last_orderBy_isSome bestOrder (l := l.filter isSuccessful)
  rw [Ne, List.filter_eq_nil_iff] at hiff
  unfold success
  rw [← Option.not_isSome_iff_eq_none, hiff, not_not]
  simp only [Bool.not_eq_true]

/-- The last commit time is that of the success, if the success counts as checked. -/
theorem lastCommitTime_success {l : List Submission} {s : Submission} (h : success l = some s)
    (hchecked : isChecked s = true) : lastCommitTime (signSubmissions l) = s.commitTime := by
  have hsign : signSubmissions l = (l.filter isChecked).filter (decide <| ·.commitTime ≤ s.commitTime) := by
    unfold signSubmissions
    rw [h]
  have hmem : s ∈ signSubmissions l := by
    rw [hsign]
    simp [(success_mem h).1, hchecked]
  have hbound : ∀ b ∈ signSubmissions l, b.commitTime ≤ s.commitTime := by
    rw [hsign]
    intro b hb
    simpa using (List.mem_filter.mp hb).2
  unfold lastCommitTime
  cases hlast : lastOrDefault (orderBy (byKey id) ((signSubmissions l).map Submission.commitTime)) with
  | none =>
    have := (last_orderBy_isSome (byKey (id : Int → Int))).mpr
      (List.ne_nil_of_mem (List.mem_map_of_mem (f := Submission.commitTime) hmem))
    rw [hlast] at this; cases this
  | some t =>
    obtain ⟨hmem', hmax⟩ := last_orderBy (byKey_totalPreorder id) hlast
    obtain ⟨b, hb, rfl⟩ := List.mem_map.mp hmem'
    have hle := hmax s.commitTime (List.mem_map_of_mem hmem)
    simp only [byKey, id, decide_eq_true_eq] at hle
    show b.commitTime = s.commitTime
    have := hbound b hb
    omega

/-- The filters of the submissions query, as one. -/
def isCounted (contest : Contest) (notFreeze : Bool) (start : Int) (submission : Submission) : Bool :=
  !submission.isHidden && inWindow contest start submission && isJudged submission &&
    (!(contest.isFreeze now && !notFreeze) || beforeFreeze contest submission)

theorem standingSubmissions_eq (contest : Contest) (notFreeze : Bool) (start : Int) :
    standingSubmissions now contest notFreeze start =
      (orderBy (byKey Submission.commitTime) ((standingProblems contest).flatMap Problem.submissions)).filter
        (isCounted now contest notFreeze start) := by
  unfold standingSubmissions isCounted
  simp only [List.filter_filter]
  by_cases hf : (contest.isFreeze now && !notFreeze) = true
  · rw [if_pos hf]
    refine List.filter_congr fun submission _ => ?_
    rw [hf]
    cases submission.isHidden <;> cases inWindow contest start submission <;> cases isJudged submission <;> simp
  · rw [if_neg hf]
    refine List.filter_congr fun submission _ => ?_
    rw [Bool.eq_false_iff.mpr hf]
    cases submission.isHidden <;> cases inWindow contest start submission <;> cases isJudged submission <;> simp

theorem standingProblems_ids (contest : Contest) : ((standingProblems contest).map Problem.id).Nodup :=
  ((orderBy_perm _ _).map _).nodup_iff.mpr contest.problem_ids

def cellSubmissions (contest : Contest) (notFreeze : Bool) (start : Int) (userId : Int) (problem : Problem) :
    List Submission :=
  groupJoin problem.id Submission.problemId
    (groupJoin userId Submission.userId (standingSubmissions now contest notFreeze start))

theorem standingSubmissions_perm {contest : Contest} (notFreeze : Bool) (start userId : Int) {problem : Problem}
    (h : problem ∈ contest.problems) :
    (cellSubmissions now contest notFreeze start userId problem).Perm
      (problem.submissions.filter fun s => isCounted now contest notFreeze start s && s.userId == userId) := by
  have own := groupJoin_flatMap (standingProblems_ids contest) (fun p _ => p.submissions_of) problem
    (mem_orderBy.mpr h)
  have hp := (orderBy_perm (byKey Submission.commitTime)
    ((standingProblems contest).flatMap Problem.submissions)).filter
      fun s => (isCounted now contest notFreeze start s && s.userId == userId) && problem.id == s.problemId
  unfold cellSubmissions
  rw [standingSubmissions_eq, ← own]
  simp only [groupJoin, List.filter_filter]
  refine (List.Perm.of_eq (List.filter_congr fun s _ => ?_)).trans hp
  rw [Bool.and_comm, Bool.and_comm (userId == _), BEq.comm]

end OlympSystem.Domain.Standing
