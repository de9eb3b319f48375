/-
  OlympSystem.Domain.Rows — which rows `Standing.NewStanding` returns.

  The rule is stated apart from the query: who is displayed (`IsDisplayed`), and what a
  list of rows has to be (`IsStanding`). The sums of a row are taken in `int`, which
  throws where a sum leaves it, and in `double` milliseconds, whose arithmetic is the
  parameter `ms`.

  Proved:
  - `standingUsers_iff`: the users of the query are those displayed, each once.
  - `cell_of_row`: what the cells of a row are computed from.
  - `rows_of_standing`: the rows are a standing, or a displayed user has a sum that
    cannot be represented, and the query throws.
-/

import OlympSystem.Domain.IcpcRules

namespace OlympSystem.Domain.Rows

open Lib.Query Lib.Checked Standing
open IcpcRules (counts contestStart rowCells)

/-! ## The rule -/

section Rule

variable (culture : Culture) (ms : Milliseconds) (now : Int) (contest : Contest)
  (includeAll official notFreeze : Bool) (startTime : Option Int)

/-- A competitor who takes part: approved, not hidden, and official if only those are asked for. -/
def TakesPart (user : User) : Prop :=
  ∃ competitor ∈ contest.competitors, competitor.user = user ∧ competitor.info.isApproved = true ∧
    user.isHidden = false ∧ (official = true → competitor.info.isOutOfCompetition = false ∧ user.isDisqualified = false)

def IsAuthor (user : User) : Prop :=
  ∃ problem ∈ contest.problems, ∃ submission ∈ problem.submissions,
    counts now contest notFreeze startTime submission = true ∧ submission.user = user

def IsDisplayed (user : User) : Prop :=
  (startTime = none ∧ TakesPart contest official user) ∨
    (includeAll = true ∧ user.isHidden = false ∧ IsAuthor now contest notFreeze startTime user)

/-- Score descending, then summary time, then name ascending. -/
def Precedes (a b : UserResult) : Prop :=
  b.score < a.score ∨ a.score = b.score ∧ (a.summaryTime < b.summaryTime ∨
    a.summaryTime = b.summaryTime ∧ culture.compareLe a.user.name b.user.name = true)

def penaltyOf : Int := if contest.isSchool culture then 0 else 20

structure IsStanding (rows : List UserResult) : Prop where
  users : ∀ user, (∃ row ∈ rows, row.user = user) ↔
    IsDisplayed now contest includeAll official notFreeze startTime user
  one_each : (rows.map (·.user.id)).Nodup
  cells : ∀ row ∈ rows, (row.problemResults.map UserProblemResult.problem).Perm contest.problems
  numbers : ∀ row ∈ rows, row.problemResults.Pairwise (·.problem.number ≤ ·.problem.number)
  score : ∀ row ∈ rows, row.score = (row.problemResults.map UserProblemResult.score).sum
  summaryTime : ∀ row ∈ rows, ms.fromMilliseconds (ms.sum (row.problemResults.map
    (·.summaryTime ms (contestStart contest startTime) (penaltyOf culture contest)))) = .ok row.summaryTime
  sorted : rows.Pairwise (Precedes culture)

/-- The cell of a user for a problem, but for the mark of the first success. -/
def cellOf (user : User) (problem : Problem) : UserProblemResult :=
  userProblemResult problem
    (cellSubmissions now contest notFreeze (contestStart contest startTime) user.id problem) false

/-- The scores of a user's cells, added up in order of the problems, leave `int`. -/
def ScoreOverflows (user : User) : Prop :=
  sumInt32 ((standingProblems contest).map fun p => (cellOf now contest notFreeze startTime user p).score) = none

/-- The times of a user's cells add up to no `TimeSpan`, for the reason `e`. -/
def TimeFails (user : User) (e : Exn) : Prop :=
  ms.fromMilliseconds (ms.sum ((standingProblems contest).map fun p =>
    (cellOf now contest notFreeze startTime user p).summaryTime ms (contestStart contest startTime)
      (penaltyOf culture contest))) = .error e

/-- The users of a contest: its competitors, and who has sent in a submission. -/
def knownUsers (contest : Contest) : List User :=
  contest.competitors.map Competitor.user ++ contest.problems.flatMap fun p => p.submissions.map Submission.user

/-- Users are identified by their ids, and a collection holds an entity once. -/
structure UsersById (contest : Contest) : Prop where
  competitors : (contest.competitors.map (·.user.id)).Nodup
  same : ∀ user ∈ knownUsers contest, ∀ user' ∈ knownUsers contest, user.id = user'.id → user = user'

end Rule

/-! ## The users -/

variable {culture : Culture} {ms : Milliseconds} (now : Int) {contest : Contest}
  (includeAll official notFreeze : Bool) (startTime : Option Int)

theorem mem_standingCompetitors {user : User} :
    user ∈ standingCompetitors contest official startTime ↔ startTime = none ∧ TakesPart contest official user := by
  unfold standingCompetitors TakesPart
  cases startTime with
  | some _ => simp
  | none =>
    simp only [List.mem_map, List.mem_filter, true_and]
    constructor
    · rintro ⟨competitor, ⟨hmem, hd⟩, rfl⟩
      simp only [isDisplayed, Bool.and_eq_true, Bool.or_eq_true, Bool.not_eq_true'] at hd
      obtain ⟨⟨hap, hh⟩, ho⟩ := hd
      refine ⟨competitor, hmem, rfl, hap, hh, fun hof => ?_⟩
      rw [hof] at ho
      simpa using ho
    · rintro ⟨competitor, hmem, rfl, hap, hh, ho⟩
      refine ⟨competitor, ⟨hmem, ?_⟩, rfl⟩
      simp only [isDisplayed, hap, hh, Bool.not_false, Bool.true_and]
      by_cases hof : official = true
      · simp [(ho hof).1, (ho hof).2]
      · simp [hof]

abbrev read (contest : Contest) : List Submission :=
  standingSubmissions now contest notFreeze (standingStart contest startTime)

theorem mem_read {submission : Submission} : submission ∈ read now notFreeze startTime contest ↔
    ∃ problem ∈ contest.problems, submission ∈ problem.submissions ∧
      counts now contest notFreeze startTime submission = true := by
  rw [read, standingSubmissions_eq, List.mem_filter, mem_orderBy, List.mem_flatMap, IcpcRules.counts_eq]
  simp only [standingProblems, mem_orderBy]
  constructor
  · rintro ⟨⟨p, hp, hs⟩, hc⟩; exact ⟨p, hp, hs, hc⟩
  · rintro ⟨p, hp, hs, hc⟩; exact ⟨⟨p, hp, hs⟩, hc⟩

/-- The authors who are united with the competitors. -/
theorem mem_authors {user : User} :
    user ∈ ((read now notFreeze startTime contest).map Submission.user).filter (!·.isHidden) ↔
      user.isHidden = false ∧ IsAuthor now contest notFreeze startTime user := by
  simp only [List.mem_filter, List.mem_map, mem_read, IsAuthor, Bool.not_eq_true']
  constructor
  · rintro ⟨⟨s, ⟨p, hp, hs, hc⟩, rfl⟩, hh⟩; exact ⟨hh, p, hp, s, hs, hc, rfl⟩
  · rintro ⟨hh, p, hp, s, hs, hc, rfl⟩; exact ⟨⟨s, ⟨p, hp, hs, hc⟩, rfl⟩, hh⟩

abbrev shown (contest : Contest) : List User :=
  standingUsers (standingCompetitors contest official startTime) (read now notFreeze startTime contest) includeAll

/-- The users who are united are known. -/
theorem mem_knownUsers {user : User} (h : user ∈ standingCompetitors contest official startTime ++
    ((read now notFreeze startTime contest).map Submission.user).filter (!·.isHidden)) :
    user ∈ knownUsers contest := by
  unfold knownUsers
  rcases List.mem_append.mp h with hu | hu
  · obtain ⟨-, competitor, hmem, he, -⟩ := (mem_standingCompetitors official startTime).mp hu
    exact List.mem_append_left _ (List.mem_map.mpr ⟨competitor, hmem, he⟩)
  · obtain ⟨-, p, hp, s, hs, -, he⟩ := (mem_authors now notFreeze startTime).mp hu
    exact List.mem_append_right _ (List.mem_flatMap.mpr ⟨p, hp, List.mem_map.mpr ⟨s, hs, he⟩⟩)

theorem standingUsers_iff (h : UsersById contest) {user : User} :
    user ∈ shown now includeAll official notFreeze startTime contest ↔
      IsDisplayed now contest includeAll official notFreeze startTime user := by
  unfold shown standingUsers IsDisplayed
  by_cases hall : includeAll = true
  · rw [if_pos hall, mem_unionBy fun a ha b hb => h.same a (mem_knownUsers now official notFreeze startTime ha) b
      (mem_knownUsers now official notFreeze startTime hb), mem_standingCompetitors, mem_authors]
    simp [hall]
  · rw [if_neg hall, mem_standingCompetitors]
    simp [hall]

theorem standingCompetitors_nodup (h : UsersById contest) :
    ((standingCompetitors contest official startTime).map User.id).Nodup := by
  unfold standingCompetitors
  cases startTime with
  | some _ => exact List.nodup_nil
  | none =>
    simp only [List.map_map]
    exact h.competitors.sublist (List.filter_sublist.map _)

theorem standingUsers_nodup (h : UsersById contest) :
    ((shown now includeAll official notFreeze startTime contest).map User.id).Nodup := by
  unfold shown standingUsers
  split
  · exact unionBy_keys User.id _ _
  · exact standingCompetitors_nodup official startTime h

/-! ## One row -/

variable (culture ms)

/-- The row query of one user, as `newStanding` runs it. -/
abbrev rowOf (contest : Contest) (user : User) : Except Exn UserResult :=
  userResult ms (if contest.isSchool culture then 0 else penalty) (standingStart contest startTime)
    (standingProblems contest) (read now notFreeze startTime contest)
    (firstSuccess (shown now includeAll official notFreeze startTime contest) (read now notFreeze startTime contest))
    user

theorem rowCells_score (first : List (Int × Int)) (user : User) :
    (rowCells now contest notFreeze startTime first user).map UserProblemResult.score =
      (standingProblems contest).map fun p => (cellOf now contest notFreeze startTime user p).score := by
  unfold rowCells userProblemStanding
  rw [List.map_map]
  rfl

theorem rowCells_time (first : List (Int × Int)) (user : User) (start cost : Int) :
    (rowCells now contest notFreeze startTime first user).map (·.summaryTime ms start cost) =
      (standingProblems contest).map fun p =>
        (cellOf now contest notFreeze startTime user p).summaryTime ms start cost := by
  unfold rowCells userProblemStanding
  rw [List.map_map]
  rfl

theorem rowCells_problem (first : List (Int × Int)) (user : User) :
    (rowCells now contest notFreeze startTime first user).map UserProblemResult.problem = standingProblems contest := by
  unfold rowCells userProblemStanding
  rw [List.map_map]
  exact List.map_id _

/-- What one row of the standings of a contest holds. -/
structure IsRow (contest : Contest) (user : User) (row : UserResult) : Prop where
  user : row.user = user
  problems : row.problemResults.map UserProblemResult.problem = standingProblems contest
  score : row.score = (row.problemResults.map UserProblemResult.score).sum
  summaryTime : ms.fromMilliseconds (ms.sum (row.problemResults.map
    (·.summaryTime ms (contestStart contest startTime) (penaltyOf culture contest)))) = .ok row.summaryTime

theorem rowOf_ok {user : User} {row : UserResult}
    (h : rowOf culture ms now includeAll official notFreeze startTime contest user = .ok row) :
    IsRow culture ms startTime contest user row := by
  simp only [rowOf, userResult] at h
  split at h
  · cases h
  · next score hscore =>
    split at h
    · cases h
    · next time htime =>
      cases h
      exact ⟨rfl, rowCells_problem now notFreeze startTime _ user, checkedSum_eq hscore, htime⟩

theorem newStanding_eq : newStanding culture ms now contest includeAll official notFreeze startTime =
    ((shown now includeAll official notFreeze startTime contest).mapM
      (rowOf culture ms now includeAll official notFreeze startTime contest)).map (orderBy (rowOrder culture)) := rfl

/-- A row is the one of its user, with the user's cells. -/
theorem rowOf_cells {user : User} {row : UserResult}
    (h : rowOf culture ms now includeAll official notFreeze startTime contest user = .ok row) :
    row.user = user ∧ row.problemResults = rowCells now contest notFreeze startTime
      (firstSuccess (shown now includeAll official notFreeze startTime contest) (read now notFreeze startTime contest))
      user := by
  simp only [rowOf, userResult] at h
  split at h
  · cases h
  · split at h <;> cases h
    exact ⟨rfl, rfl⟩

theorem cell_of_rowOf {user : User} {row : UserResult}
    (h : rowOf culture ms now includeAll official notFreeze startTime contest user = .ok row) {cell : UserProblemResult}
    (hcell : cell ∈ row.problemResults) : row.user = user ∧ ∃ problem ∈ contest.problems, ∃ first,
      cell = userProblemResult problem
        (cellSubmissions now contest notFreeze (contestStart contest startTime) user.id problem) first := by
  obtain ⟨huser, hcells⟩ := rowOf_cells culture ms now includeAll official notFreeze startTime h
  rw [hcells] at hcell
  obtain ⟨problem, hproblem, rfl⟩ := List.mem_map.mp hcell
  exact ⟨huser, problem, mem_orderBy.mp hproblem, _, rfl⟩

/-- The rows are those of the users shown, sorted. -/
theorem newStanding_rows {rows : List UserResult}
    (h : newStanding culture ms now contest includeAll official notFreeze startTime = .ok rows) :
    ∃ unsorted, List.Forall₂ (fun user row =>
        rowOf culture ms now includeAll official notFreeze startTime contest user = .ok row)
        (shown now includeAll official notFreeze startTime contest) unsorted ∧
      rows = orderBy (rowOrder culture) unsorted := by
  rw [newStanding_eq] at h
  cases hm : (shown now includeAll official notFreeze startTime contest).mapM
      (rowOf culture ms now includeAll official notFreeze startTime contest) with
  | error e => rw [hm] at h; cases h
  | ok unsorted =>
    rw [hm] at h
    cases h
    exact ⟨unsorted, mapM_eq_ok hm, rfl⟩

theorem mem_rows {rows : List UserResult}
    (h : newStanding culture ms now contest includeAll official notFreeze startTime = .ok rows) {row : UserResult}
    (hrow : row ∈ rows) : row.user ∈ shown now includeAll official notFreeze startTime contest ∧
      rowOf culture ms now includeAll official notFreeze startTime contest row.user = .ok row := by
  obtain ⟨unsorted, hrows, rfl⟩ := newStanding_rows culture ms now includeAll official notFreeze startTime h
  obtain ⟨user, hmem, hr⟩ := (forall₂_exists hrows).2 row (mem_orderBy.mp hrow)
  obtain rfl := (rowOf_ok culture ms now includeAll official notFreeze startTime hr).user
  exact ⟨hmem, hr⟩

theorem cell_of_row {rows : List UserResult}
    (h : newStanding culture ms now contest includeAll official notFreeze startTime = .ok rows) {row : UserResult}
    (hrow : row ∈ rows) {cell : UserProblemResult} (hcell : cell ∈ row.problemResults) :
    ∃ problem ∈ contest.problems, ∃ first, cell = userProblemResult problem
      (cellSubmissions now contest notFreeze (contestStart contest startTime) row.user.id problem) first :=
  (cell_of_rowOf culture ms now includeAll official notFreeze startTime
    (mem_rows culture ms now includeAll official notFreeze startTime h hrow).2 hcell).2

/-- A row is computed exactly when its sums can be represented. -/
theorem rowOf_isOk {user : User} :
    (∃ row, rowOf culture ms now includeAll official notFreeze startTime contest user = .ok row) ↔
      ¬ScoreOverflows now contest notFreeze startTime user ∧
        ∀ e, ¬TimeFails culture ms now contest notFreeze startTime user e := by
  unfold ScoreOverflows TimeFails
  rw [← rowCells_score now notFreeze startTime
      (firstSuccess (shown now includeAll official notFreeze startTime contest) (read now notFreeze startTime contest)),
    ← rowCells_time ms now notFreeze startTime
      (firstSuccess (shown now includeAll official notFreeze startTime contest) (read now notFreeze startTime contest)),
    show contestStart contest startTime = standingStart contest startTime from rfl,
    show penaltyOf culture contest = if contest.isSchool culture then 0 else penalty from rfl]
  simp only [rowOf, userResult, rowCells]
  generalize userProblemStanding _ _ _ = cells
  cases sumInt32 (cells.map UserProblemResult.score) with
  | none => simp
  | some score =>
    cases ms.fromMilliseconds (ms.sum (cells.map (·.summaryTime ms (standingStart contest startTime)
        (if contest.isSchool culture then 0 else penalty)))) with
    | error e => simp
    | ok time => simp

/-! ## The standing -/

theorem precedes_of_rowOrder {a b : UserResult} (h : rowOrder culture a b = true) : Precedes culture a b := by
  unfold rowOrder at h
  rw [thenBy_true, thenBy_true, thenBy_true] at h
  obtain ⟨hscore, h⟩ := h
  simp only [descending, byKey, decide_eq_true_eq] at hscore h
  rcases lt_or_eq_of_le hscore with hlt | heq
  · exact Or.inl hlt
  · obtain ⟨htime, h⟩ := h heq.ge
    refine Or.inr ⟨heq.symm, ?_⟩
    rcases lt_or_eq_of_le htime with hlt | heq'
    · exact Or.inl hlt
    · exact Or.inr ⟨heq', (h heq'.ge).2 heq.le⟩

/-- Rows of distinct users, in the order of the query, are a standing. -/
theorem isStanding_orderBy (h : UsersById contest) {rows : List UserResult}
    (hrows : List.Forall₂ (IsRow culture ms startTime contest)
      (shown now includeAll official notFreeze startTime contest) rows) :
    IsStanding culture ms now contest includeAll official notFreeze startTime (orderBy (rowOrder culture) rows) := by
  have husers : rows.map UserResult.user = shown now includeAll official notFreeze startTime contest := by
    have husers := map_eq_of_forall₂ (f := id) (g := UserResult.user) (hrows.imp fun _ _ hr => hr.user.symm)
    rw [← husers, List.map_id]
  have hrow : ∀ row ∈ orderBy (rowOrder culture) rows, ∃ user, IsRow culture ms startTime contest user row := by
    intro row hmem
    obtain ⟨user, -, hr⟩ := (forall₂_exists hrows).2 row (mem_orderBy.mp hmem)
    exact ⟨user, hr⟩
  constructor
  · intro user
    rw [← standingUsers_iff now includeAll official notFreeze startTime h, ← husers, List.mem_map]
    simp only [mem_orderBy]
  · have hids : rows.map (·.user.id) = (shown now includeAll official notFreeze startTime contest).map User.id := by
      rw [← husers, List.map_map]; rfl
    refine ((orderBy_perm _ rows).map _).nodup_iff.mpr ?_
    rw [hids]
    exact standingUsers_nodup now includeAll official notFreeze startTime h
  · intro row hmem
    obtain ⟨user, hr⟩ := hrow row hmem
    rw [hr.problems]
    exact orderBy_perm _ _
  · intro row hmem
    obtain ⟨user, hr⟩ := hrow row hmem
    have hs := orderBy_sorted (byKey_totalPreorder Problem.number) contest.problems
    rw [show orderBy _ _ = _ from hr.problems.symm, List.pairwise_map] at hs
    exact hs.imp fun hle => by simpa [byKey] using hle
  · intro row hmem
    obtain ⟨user, hr⟩ := hrow row hmem
    exact hr.score
  · intro row hmem
    obtain ⟨user, hr⟩ := hrow row hmem
    exact hr.summaryTime
  · exact (orderBy_sorted (rowOrder_totalPreorder culture) rows).imp (precedes_of_rowOrder culture)

/-- The sums of a displayed user's row can be represented. -/
def Representable (culture : Culture) (ms : Milliseconds) (now : Int) (contest : Contest)
    (includeAll official notFreeze : Bool) (startTime : Option Int) : Prop :=
  ∀ user, IsDisplayed now contest includeAll official notFreeze startTime user →
    ¬ScoreOverflows now contest notFreeze startTime user ∧
      ∀ e, ¬TimeFails culture ms now contest notFreeze startTime user e

/-- The rows are the standing, and there are rows unless a sum cannot be represented. -/
theorem rows_of_standing (culture : Culture) (ms : Milliseconds) (now : Int) (contest : Contest)
    (h : UsersById contest) (includeAll official notFreeze : Bool) (startTime : Option Int) :
    (∀ rows, newStanding culture ms now contest includeAll official notFreeze startTime = .ok rows →
      IsStanding culture ms now contest includeAll official notFreeze startTime rows) ∧
    ((∃ rows, newStanding culture ms now contest includeAll official notFreeze startTime = .ok rows) ↔
      Representable culture ms now contest includeAll official notFreeze startTime) := by
  have hshown : ∀ user, IsDisplayed now contest includeAll official notFreeze startTime user ↔
      user ∈ shown now includeAll official notFreeze startTime contest :=
    fun user => (standingUsers_iff now includeAll official notFreeze startTime h).symm
  rw [newStanding_eq]
  cases hm : (shown now includeAll official notFreeze startTime contest).mapM
      (rowOf culture ms now includeAll official notFreeze startTime contest) with
  | ok rows =>
    have hrows := mapM_eq_ok hm
    refine ⟨?_, fun _ user hd => ?_, fun _ => ⟨_, rfl⟩⟩
    · rintro _ ⟨⟩
      refine isStanding_orderBy culture ms now includeAll official notFreeze startTime h ?_
      exact hrows.imp fun _ _ hr => rowOf_ok culture ms now includeAll official notFreeze startTime hr
    · obtain ⟨row, -, hr⟩ := (forall₂_exists hrows).1 user ((hshown user).mp hd)
      exact (rowOf_isOk culture ms now includeAll official notFreeze startTime).mp ⟨row, hr⟩
  | error e =>
    refine ⟨fun _ hok => (nomatch hok), fun ⟨_, hok⟩ => (nomatch hok), fun hrep => ?_⟩
    obtain ⟨user, hmem, hfail⟩ := mapM_eq_error hm
    obtain ⟨row, hrow⟩ := (rowOf_isOk culture ms now includeAll official notFreeze startTime).mpr
      (hrep user ((hshown user).mpr hmem))
    rw [hfail] at hrow
    cases hrow

theorem sample_rows :
    (∀ rows, newStanding .ordinal .exact 0 IcpcRules.sampleContest true false false none = .ok rows →
      IsStanding .ordinal .exact 0 IcpcRules.sampleContest true false false none rows) ∧
    ((∃ rows, newStanding .ordinal .exact 0 IcpcRules.sampleContest true false false none = .ok rows) ↔
      Representable .ordinal .exact 0 IcpcRules.sampleContest true false false none) :=
  rows_of_standing .ordinal .exact 0 IcpcRules.sampleContest ⟨by decide, by decide⟩ true false false none

def largeContest : Contest where
  abbr := "school"
  startTime := 0
  endTime := 300 * ticksPerMinute
  freezeTime := none
  problems := [⟨1, 1, [⟨1, 2, false, 10, some int32Max, IcpcRules.sampleUser, 1⟩], by decide⟩,
    ⟨2, 2, [⟨2, 2, false, 20, some int32Max, IcpcRules.sampleUser, 2⟩], by decide⟩]
  competitors := [⟨IcpcRules.sampleUser, ⟨true, false⟩, IcpcRules.sampleUser_competes⟩]
  problem_ids := by decide
  problem_count := by decide

/-- Then no rows are returned. -/
theorem a_score_sum_leaves_int :
    UsersById largeContest ∧ ¬∃ rows, newStanding .ordinal .exact 0 largeContest false false false none = .ok rows ∧
      IsStanding .ordinal .exact 0 largeContest false false false none rows := by
  refine ⟨⟨by decide, by decide⟩, ?_⟩
  rintro ⟨rows, hrows, -⟩
  have hfail : newStanding .ordinal .exact 0 largeContest false false false none = .error .overflow := rfl
  rw [hfail] at hrows
  cases hrows

end OlympSystem.Domain.Rows
