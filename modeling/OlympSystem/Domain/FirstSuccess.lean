/-
  OlympSystem.Domain.FirstSuccess — who is marked as the first to solve a problem.

  `NewStanding` joins the displayed users with the submissions it reads, keeps the accepted
  ones in order of commit time, and takes the user of the first one for each problem.

  Proved:
  - `firstSuccess_earliest` / `firstSuccess_exists` / `firstSuccess_unique`: the pairs of
    the query, on any users and submissions.
  - `marked_iff`: a cell has the mark exactly when its problem and user are such a pair.
  - `first_success_marks`: for each problem at most one row has the mark, one has it
    exactly when a displayed user solved it, and its user did so at the earliest time.
-/

import OlympSystem.Domain.Rows

namespace OlympSystem.Domain.FirstSuccess

open Lib.Query Standing
open IcpcRules (counts contestStart attempts rowCells)
open Rows

/-! ## The query -/

section Query

variable {users : List User} {submissions : List Submission}

/-- The submissions the query groups: accepted, and of one of the users. -/
def Candidate (users : List User) (submissions : List Submission) (s : Submission) : Prop :=
  s ∈ submissions ∧ s.statusCode = 2 ∧ ∃ user ∈ users, user.id = s.userId

abbrev inOrder (users : List User) (submissions : List Submission) : List Submission :=
  orderBy (byKey Submission.commitTime)
    ((joinOn User.id Submission.userId users submissions).filter (·.statusCode == 2))

theorem mem_inOrder {s : Submission} : s ∈ inOrder users submissions ↔ Candidate users submissions s := by
  unfold inOrder joinOn groupJoin Candidate
  simp only [mem_orderBy, List.mem_filter, List.mem_flatMap, beq_iff_eq]
  constructor
  · rintro ⟨⟨user, hu, hs, hid⟩, h2⟩
    exact ⟨hs, h2, user, hu, hid⟩
  · rintro ⟨hs, h2, user, hu, hid⟩
    exact ⟨⟨user, hu, hs, hid⟩, h2⟩

theorem mem_group {problemId : Int} {s : Submission} :
    s ∈ (inOrder users submissions).filter (·.problemId == problemId) ↔
      Candidate users submissions s ∧ s.problemId = problemId := by
  rw [List.mem_filter, mem_inOrder, beq_iff_eq]

/-- A pair comes from the first of its group. -/
theorem mem_firstSuccess {problemId userId : Int} : (problemId, userId) ∈ firstSuccess users submissions ↔
    ∃ s, ((inOrder users submissions).filter (·.problemId == problemId)).head? = some s ∧ s.userId = userId := by
  constructor
  · intro h
    obtain ⟨group, hgroup, hpair⟩ := List.mem_filterMap.mp h
    obtain ⟨s, hs, heq⟩ := Option.map_eq_some_iff.mp hpair
    cases heq
    rw [(mem_groupBy.mp hgroup).2] at hs
    exact ⟨s, hs, rfl⟩
  · rintro ⟨s, hs, rfl⟩
    obtain ⟨hmem, hproblem⟩ := mem_group.mp (List.mem_of_head? hs)
    refine List.mem_filterMap.mpr ⟨(problemId, (inOrder users submissions).filter (·.problemId == problemId)),
      mem_groupBy.mpr ⟨⟨s, mem_inOrder.mpr hmem, hproblem⟩, rfl⟩, ?_⟩
    rw [hs]
    rfl

/-- The user of a pair has the earliest accepted submission to the problem. -/
theorem firstSuccess_earliest {problemId userId : Int} (h : (problemId, userId) ∈ firstSuccess users submissions) :
    ∃ s, Candidate users submissions s ∧ s.problemId = problemId ∧ s.userId = userId ∧
      ∀ s', Candidate users submissions s' → s'.problemId = problemId → s.commitTime ≤ s'.commitTime := by
  obtain ⟨s, hs, rfl⟩ := mem_firstSuccess.mp h
  obtain ⟨hmem, hproblem⟩ := mem_group.mp (List.mem_of_head? hs)
  refine ⟨s, hmem, hproblem, rfl, fun s' hs' hp => ?_⟩
  have hsorted := (orderBy_sorted (byKey_totalPreorder Submission.commitTime)
    ((joinOn User.id Submission.userId users submissions).filter (·.statusCode == 2))).sublist
      (List.filter_sublist (p := fun s => s.problemId == problemId))
  obtain ⟨rest, hrest⟩ := List.head?_eq_some_iff.mp hs
  have hin := mem_group.mpr ⟨hs', hp⟩
  rw [hrest] at hin hsorted
  rcases List.mem_cons.mp hin with rfl | hlater
  · exact Int.le_refl _
  · exact of_decide_eq_true ((List.pairwise_cons.mp hsorted).1 s' hlater)

theorem firstSuccess_exists {s : Submission} (h : Candidate users submissions s) :
    ∃ userId, (s.problemId, userId) ∈ firstSuccess users submissions := by
  have hmem := mem_group.mpr ⟨h, rfl⟩
  obtain ⟨first, rest, hcons⟩ := List.exists_cons_of_ne_nil (List.ne_nil_of_mem hmem)
  exact ⟨first.userId, mem_firstSuccess.mpr ⟨first, by rw [hcons]; rfl, rfl⟩⟩

/-- A problem has one pair. -/
theorem firstSuccess_unique {problemId userId userId' : Int} (h : (problemId, userId) ∈ firstSuccess users submissions)
    (h' : (problemId, userId') ∈ firstSuccess users submissions) : userId = userId' := by
  obtain ⟨s, hs, rfl⟩ := mem_firstSuccess.mp h
  obtain ⟨s', hs', rfl⟩ := mem_firstSuccess.mp h'
  rw [Option.some.inj (hs.symm.trans hs')]

end Query

/-! ## The rows -/

section Rows

variable (culture : Culture) (ms : Milliseconds) (now : Int) {contest : Contest}
  (includeAll official notFreeze : Bool) (startTime : Option Int)

/-- The row's cell for the problem has the mark. -/
def Marked (problem : Problem) (row : UserResult) : Prop :=
  ∃ cell ∈ row.problemResults, cell.problem.id = problem.id ∧ cell.isFirstSuccess = true

/-- An accepted submission to the problem that counts, of a displayed user. -/
def Solves (contest : Contest) (problem : Problem) (user : User) (s : Submission) : Prop :=
  IsDisplayed now contest includeAll official notFreeze startTime user ∧
    s ∈ attempts now contest notFreeze startTime user problem ∧ s.statusCode = 2

abbrev marks (contest : Contest) : List (Int × Int) :=
  firstSuccess (shown now includeAll official notFreeze startTime contest) (read now notFreeze startTime contest)

theorem problem_unique {problem problem' : Problem} (hp : problem ∈ contest.problems)
    (hp' : problem' ∈ contest.problems) (hid : problem.id = problem'.id) : problem = problem' :=
  List.inj_on_of_nodup_map contest.problem_ids hp hp' hid

theorem marked_iff {user : User} {row : UserResult}
    (h : rowOf culture ms now includeAll official notFreeze startTime contest user = .ok row) {problem : Problem}
    (hp : problem ∈ contest.problems) :
    Marked problem row ↔ (problem.id, user.id) ∈ marks now includeAll official notFreeze startTime contest := by
  have hcells : row.problemResults = rowCells now contest notFreeze startTime
      (marks now includeAll official notFreeze startTime contest) user :=
    (rowOf_cells culture ms now includeAll official notFreeze startTime h).2
  have hmark : ∀ problem' : Problem, (some (firstSuccessOf (marks now includeAll official notFreeze startTime contest)
      user.id)).any (·.contains problem'.id) = true ↔
        (problem'.id, user.id) ∈ marks now includeAll official notFreeze startTime contest := by
    intro problem'
    simp [firstSuccessOf]
  unfold Marked
  rw [hcells]
  constructor
  · intro ⟨cell, hcell, hid, hfirst⟩
    obtain ⟨problem', -, rfl⟩ := List.mem_map.mp hcell
    rw [← show problem'.id = problem.id from hid]
    exact (hmark problem').mp hfirst
  · intro hpair
    exact ⟨_, List.mem_map_of_mem (mem_orderBy.mpr hp), rfl, (hmark problem).mpr hpair⟩

/-- What the query groups for a problem is what displayed users solved it with. -/
theorem candidate_iff (h : UsersById contest) {problem : Problem} (hp : problem ∈ contest.problems) {s : Submission} :
    Candidate (shown now includeAll official notFreeze startTime contest) (read now notFreeze startTime contest) s ∧
        s.problemId = problem.id ↔
      ∃ user, user.id = s.userId ∧ Solves now includeAll official notFreeze startTime contest problem user s := by
  unfold Candidate Solves attempts
  simp only [List.mem_filter, Bool.and_eq_true, beq_iff_eq]
  constructor
  · rintro ⟨⟨hread, h2, user, hu, hid⟩, hproblem⟩
    obtain ⟨problem', hp', hs, hcounts⟩ := (mem_read now notFreeze startTime).mp hread
    have hsame := problem_unique hp' hp ((problem'.submissions_of s hs).symm.trans hproblem)
    subst hsame
    exact ⟨user, hid, (standingUsers_iff now includeAll official notFreeze startTime h).mp hu,
      ⟨hs, hcounts, hid.symm⟩, h2⟩
  · rintro ⟨user, hid, hdisplayed, ⟨hs, hcounts, -⟩, h2⟩
    exact ⟨⟨(mem_read now notFreeze startTime).mpr ⟨problem, hp, hs, hcounts⟩, h2, user,
      (standingUsers_iff now includeAll official notFreeze startTime h).mpr hdisplayed, hid⟩,
      problem.submissions_of s hs⟩

structure FirstSuccessMarks (contest : Contest) (rows : List UserResult) (problem : Problem) : Prop where
  at_most_one : rows.Pairwise fun a b => ¬(Marked problem a ∧ Marked problem b)
  exists_iff : (∃ row ∈ rows, Marked problem row) ↔
    ∃ user s, Solves now includeAll official notFreeze startTime contest problem user s
  earliest : ∀ row ∈ rows, Marked problem row → ∃ s,
    Solves now includeAll official notFreeze startTime contest problem row.user s ∧
      ∀ user s', Solves now includeAll official notFreeze startTime contest problem user s' →
        s.commitTime ≤ s'.commitTime

/-- For every contest, all flags and start times, and every problem. -/
theorem first_success_marks (h : UsersById contest) {rows : List UserResult}
    (hrows : newStanding culture ms now contest includeAll official notFreeze startTime = .ok rows) {problem : Problem}
    (hp : problem ∈ contest.problems) :
    FirstSuccessMarks now includeAll official notFreeze startTime contest rows problem := by
  have hstanding := (rows_of_standing culture ms now contest h includeAll official notFreeze startTime).1 rows hrows
  have hmark : ∀ row ∈ rows, Marked problem row ↔
      (problem.id, row.user.id) ∈ marks now includeAll official notFreeze startTime contest := fun row hrow =>
    marked_iff culture ms now includeAll official notFreeze startTime
      (mem_rows culture ms now includeAll official notFreeze startTime hrows hrow).2 hp
  have hsolves : ∀ user s, Solves now includeAll official notFreeze startTime contest problem user s →
      Candidate (shown now includeAll official notFreeze startTime contest) (read now notFreeze startTime contest) s ∧
        s.problemId = problem.id := by
    intro user s hs
    have hown := (List.mem_filter.mp hs.2.1).2
    simp only [Bool.and_eq_true, beq_iff_eq] at hown
    exact (candidate_iff now includeAll official notFreeze startTime h hp).mpr ⟨user, hown.2.symm, hs⟩
  -- a pair is a row: its user is displayed
  have hrow : ∀ userId, (problem.id, userId) ∈ marks now includeAll official notFreeze startTime contest →
      ∃ row ∈ rows, row.user.id = userId ∧ Marked problem row := by
    intro userId hpair
    obtain ⟨s, ⟨-, -, user, hu, hid⟩, -, rfl, -⟩ := firstSuccess_earliest hpair
    obtain ⟨row, hmem, rfl⟩ := (hstanding.users user).mpr
      ((standingUsers_iff now includeAll official notFreeze startTime h).mp hu)
    exact ⟨row, hmem, hid, (hmark row hmem).mpr (hid ▸ hpair)⟩
  constructor
  · have hids := List.pairwise_map.mp hstanding.one_each
    refine hids.imp_of_mem fun {a b} ha hb hne hboth => hne ?_
    exact firstSuccess_unique ((hmark a ha).mp hboth.1) ((hmark b hb).mp hboth.2)
  · constructor
    · intro ⟨row, hmem, hmarked⟩
      obtain ⟨s, hs, hproblem, -⟩ := firstSuccess_earliest ((hmark row hmem).mp hmarked)
      obtain ⟨user, -, hsolved⟩ := (candidate_iff now includeAll official notFreeze startTime h hp).mp ⟨hs, hproblem⟩
      exact ⟨user, s, hsolved⟩
    · intro ⟨user, s, hs⟩
      obtain ⟨hcandidate, hproblem⟩ := hsolves user s hs
      obtain ⟨userId, hpair⟩ := firstSuccess_exists hcandidate
      obtain ⟨row, hmem, -, hmarked⟩ := hrow userId (hproblem ▸ hpair)
      exact ⟨row, hmem, hmarked⟩
  · intro row hmem hmarked
    obtain ⟨s, hs, hproblem, hid, hearliest⟩ := firstSuccess_earliest ((hmark row hmem).mp hmarked)
    obtain ⟨user, huser, hsolved⟩ := (candidate_iff now includeAll official notFreeze startTime h hp).mp ⟨hs, hproblem⟩
    have hdisplayed := (hstanding.users row.user).mp ⟨row, hmem, rfl⟩
    have hattempts := hsolved.2.1
    refine ⟨s, ⟨hdisplayed, ?_, hsolved.2.2⟩, fun user' s' hs' => ?_⟩
    · unfold attempts at hattempts ⊢
      rw [← hid.symm.trans huser.symm] at hattempts
      exact hattempts
    · obtain ⟨hcandidate, hproblem'⟩ := hsolves user' s' hs'
      exact hearliest s' hcandidate hproblem'

end Rows

theorem sample_marks : ∃ rows, newStanding .ordinal .exact 0 IcpcRules.sampleContest true false false none = .ok rows ∧
    ∃ problem ∈ IcpcRules.sampleContest.problems,
      FirstSuccessMarks 0 true false false none IcpcRules.sampleContest rows problem := by
  refine ⟨_, rfl, _, List.mem_cons_self, ?_⟩
  exact first_success_marks .ordinal .exact 0 true false false none ⟨by decide, by decide⟩ rfl List.mem_cons_self

end OlympSystem.Domain.FirstSuccess
