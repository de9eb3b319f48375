/-
  OlympSystem.Domain.Freeze — what a frozen standing shows.

  `EarlyProblem f p` is a problem with its submissions before the moment `f`, and
  `RowView` what a row shows: a cell names its problem by the id, since the problem
  object itself carries all submissions.

  Proved:
  - `newStanding_view`: the rows shown, from the problem ids, the submissions and the
    users alone.
  - `standingSubmissions_early`: a frozen standing reads the early problems only.
  - `freeze_noninterference`: two contests that differ only in submissions from the
    freeze on show the same rows, or throw the same exception.
-/

import OlympSystem.Domain.Standing

namespace OlympSystem.Domain.Freeze

open Lib.Query Lib.Checked Standing

/-! ## What is shown -/

structure CellView where
  problemId : Int
  isSuccess : Bool
  commitNumber : Int
  lastCommitTime : Int
  isFirstSuccess : Bool
  score : Int
  maxScore : Int
  deriving DecidableEq, Repr

structure RowView where
  user : User
  score : Int
  summaryTime : Int
  startTime : Int
  problemResults : List CellView
  deriving DecidableEq, Repr

def cellView (res : UserProblemResult) : CellView :=
  ⟨res.problem.id, res.isSuccess, res.commitNumber, res.lastCommitTime, res.isFirstSuccess, res.score, res.maxScore⟩

def rowView (row : UserResult) : RowView :=
  ⟨row.user, row.score, row.summaryTime, row.startTime, row.problemResults.map cellView⟩

variable (culture : Culture) (ms : Milliseconds) (now : Int)

def viewTime (start penalty : Int) (cell : CellView) : ms.Dbl :=
  if cell.isSuccess then
    ms.totalMilliseconds (cell.lastCommitTime - start + penalty * (cell.commitNumber - 1) * ticksPerMinute)
  else ms.zero

def rowOfCells (penalty start : Int) (user : User) (cells : List CellView) : Except Exn RowView :=
  match sumInt32 (cells.map CellView.score) with
  | none => .error .overflow
  | some score =>
    match ms.fromMilliseconds (ms.sum (cells.map (viewTime ms start penalty))) with
    | .error e => .error e
    | .ok summaryTime => .ok ⟨user, score, summaryTime, start, cells⟩

def viewOrder : RowView → RowView → Bool :=
  thenBy (descending (byKey RowView.score)) (thenBy (byKey RowView.summaryTime)
    (thenBy (byKey RowView.score) fun a b => culture.compareLe a.user.name b.user.name))

theorem userResult_view (penalty start : Int) (problems : List Problem) (submissions : List Submission)
    (firstSuccess : List (Int × Int)) (user : User) :
    (userResult ms penalty start problems submissions firstSuccess user).map rowView =
      rowOfCells ms penalty start user ((userProblemStanding problems
        (groupJoin user.id Submission.userId submissions)
        (some (firstSuccessOf firstSuccess user.id))).map cellView) := by
  unfold userResult rowOfCells
  generalize userProblemStanding problems _ _ = cells
  have hscore : (cells.map cellView).map CellView.score = cells.map UserProblemResult.score := by
    rw [List.map_map]; rfl
  have htime : (cells.map cellView).map (viewTime ms start penalty) = cells.map (·.summaryTime ms start penalty) := by
    rw [List.map_map]; rfl
  simp only [hscore, htime]
  cases sumInt32 (cells.map UserProblemResult.score) with
  | none => rfl
  | some score =>
    show Except.map rowView (match ms.fromMilliseconds _ with | .error e => _ | .ok t => _) = _
    cases ms.fromMilliseconds (ms.sum (cells.map (·.summaryTime ms start penalty))) <;> rfl

/-- What the rows show is computed from what the cells show. -/
theorem newStanding_view (contest : Contest) (includeAll official notFreeze : Bool) (startTime : Option Int) :
    let start := standingStart contest startTime
    let submissions := standingSubmissions now contest notFreeze start
    let users := standingUsers (standingCompetitors contest official startTime) submissions includeAll
    (newStanding culture ms now contest includeAll official notFreeze startTime).map (List.map rowView) =
      (users.mapM fun user => rowOfCells ms (if contest.isSchool culture then 0 else penalty) start user
        ((userProblemStanding (standingProblems contest) (groupJoin user.id Submission.userId submissions)
          (some (firstSuccessOf (firstSuccess users submissions) user.id))).map cellView)).map
        (orderBy (viewOrder culture)) := by
  intro start submissions users
  simp only [← userResult_view]
  rw [← mapM_map]
  unfold newStanding
  simp only
  generalize users.mapM (userResult ms _ start (standingProblems contest) submissions _) = rows
  cases rows with
  | error e => rfl
  | ok rows =>
    have hview : ∀ a b, viewOrder culture (rowView a) (rowView b) = rowOrder culture a b := fun _ _ => rfl
    exact congrArg Except.ok (orderBy_map rowView hview rows)

/-! ## Before the freeze -/

structure EarlyProblem where
  id : Int
  number : Int
  submissions : List Submission
  deriving DecidableEq, Repr

def early (f : Int) (p : Problem) : EarlyProblem :=
  ⟨p.id, p.number, p.submissions.filter fun s => decide (s.commitTime < f)⟩

/-- Equal but for the submissions from the moment `f`, the freeze, on. -/
structure AgreeBefore (f : Int) (c c' : Contest) : Prop where
  abbr : c.abbr = c'.abbr
  startTime : c.startTime = c'.startTime
  endTime : c.endTime = c'.endTime
  freezeTime : c.freezeTime = some f ∧ c'.freezeTime = some f
  competitors : c.competitors = c'.competitors
  problems : c.problems.map (early f) = c'.problems.map (early f)

variable {f : Int} {c c' : Contest}

theorem standingProblems_early (c : Contest) :
    (standingProblems c).map (early f) = orderBy (byKey EarlyProblem.number) (c.problems.map (early f)) := by
  have hkey : ∀ p q, byKey EarlyProblem.number (early f p) (early f q) = byKey Problem.number p q := fun _ _ => rfl
  exact orderBy_map (early f) hkey c.problems

/-- A frozen standing reads the early problems only. -/
theorem standingSubmissions_early (hf : c.freezeTime = some f) (hfreeze : c.isFreeze now = true) (start : Int) :
    standingSubmissions now c false start =
      (orderBy (byKey Submission.commitTime)
        (((standingProblems c).map (early f)).flatMap EarlyProblem.submissions)).filter
          (isCounted now c false start) := by
  have hearly : ((standingProblems c).map (early f)).flatMap EarlyProblem.submissions =
      ((standingProblems c).flatMap Problem.submissions).filter fun s => decide (s.commitTime < f) := by
    rw [List.filter_flatMap, List.flatMap_map]; rfl
  rw [standingSubmissions_eq, hearly, ← orderBy_filter (byKey_totalPreorder _), List.filter_filter]
  refine List.filter_congr fun s _ => ?_
  unfold isCounted
  rw [hfreeze]
  simp only [beforeFreeze, hf, Option.any_some]
  cases s.isHidden <;> cases inWindow c start s <;> cases isJudged s <;> simp

theorem isCounted_agree (h : AgreeBefore f c c') (start : Int) :
    isCounted now c false start = isCounted now c' false start := by
  funext s
  have hd : c.duration = c'.duration := by unfold Contest.duration; rw [h.startTime, h.endTime]
  unfold isCounted inWindow beforeFreeze Contest.isFreeze
  rw [hd, h.freezeTime.1, h.freezeTime.2]

theorem standingSubmissions_agree (h : AgreeBefore f c c') (hfreeze : c.isFreeze now = true) (start : Int) :
    standingSubmissions now c false start = standingSubmissions now c' false start := by
  have hfreeze' : c'.isFreeze now = true := by
    rw [← hfreeze]; unfold Contest.isFreeze; rw [h.freezeTime.1, h.freezeTime.2]
  rw [standingSubmissions_early now h.freezeTime.1 hfreeze, standingSubmissions_early now h.freezeTime.2 hfreeze',
    standingProblems_early, standingProblems_early, h.problems, isCounted_agree now h]

/-- The cells shown name the problems by their ids. -/
theorem cells_agree (h : AgreeBefore f c c') (submissions : List Submission) (firstSuccess : Option (List Int)) :
    (userProblemStanding (standingProblems c) submissions firstSuccess).map cellView =
      (userProblemStanding (standingProblems c') submissions firstSuccess).map cellView := by
  let cell (p : EarlyProblem) : CellView :=
    let problemSubmissions := groupJoin p.id Submission.problemId submissions
    ⟨p.id, (success problemSubmissions).isSome, (signSubmissions problemSubmissions).length,
      lastCommitTime (signSubmissions problemSubmissions), firstSuccess.any (·.contains p.id),
      cellScore (success problemSubmissions), maxScore⟩
  have hcell : ∀ c : Contest, (userProblemStanding (standingProblems c) submissions firstSuccess).map cellView =
      ((standingProblems c).map (early f)).map cell := by
    intro c
    unfold userProblemStanding
    rw [List.map_map, List.map_map]; rfl
  rw [hcell c, hcell c', standingProblems_early, standingProblems_early, h.problems]

/-- A frozen standing shows nothing of the submissions from the freeze on. -/
theorem freeze_noninterference (h : AgreeBefore f c c') (hfreeze : c.isFreeze now = true)
    (includeAll official : Bool) (startTime : Option Int) :
    (newStanding culture ms now c includeAll official false startTime).map (List.map rowView) =
      (newStanding culture ms now c' includeAll official false startTime).map (List.map rowView) := by
  have hstart : standingStart c startTime = standingStart c' startTime := by
    unfold standingStart; rw [h.startTime]
  have hcompetitors : standingCompetitors c official startTime = standingCompetitors c' official startTime := by
    unfold standingCompetitors; rw [h.competitors]
  have hschool : c.isSchool culture = c'.isSchool culture := by unfold Contest.isSchool; rw [h.abbr]
  rw [newStanding_view, newStanding_view]
  simp only [hstart, hcompetitors, hschool, standingSubmissions_agree now h hfreeze, cells_agree h]

def sampleUser : User := ⟨7, "team", false, false, some ⟨true, false⟩⟩

/-- Frozen after 240 of 300 minutes, with one submission of status `status` after 250. -/
def sampleContest (status : Int) : Contest where
  abbr := "acm"
  startTime := 0
  endTime := 300 * ticksPerMinute
  freezeTime := some (240 * ticksPerMinute)
  problems := [⟨1, 1, [⟨1, -1002, false, 10 * ticksPerMinute, none, sampleUser, 1⟩,
    ⟨2, status, false, 250 * ticksPerMinute, none, sampleUser, 1⟩], by simp⟩]
  competitors := [⟨sampleUser, ⟨true, false⟩, rfl⟩]
  problem_ids := by simp
  problem_count := by simp [maxCount]

theorem sample_freeze_hides :
    (newStanding .ordinal .exact (260 * ticksPerMinute) (sampleContest 2) true false false none).map
        (List.map rowView) =
      (newStanding .ordinal .exact (260 * ticksPerMinute) (sampleContest (-1001)) true false false none).map
        (List.map rowView) := by
  have h : AgreeBefore (240 * ticksPerMinute) (sampleContest 2) (sampleContest (-1001)) :=
    ⟨rfl, rfl, rfl, ⟨rfl, rfl⟩, rfl, by decide⟩
  exact freeze_noninterference .ordinal .exact (260 * ticksPerMinute) h (by decide) true false none

end OlympSystem.Domain.Freeze
