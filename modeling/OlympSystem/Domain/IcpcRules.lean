/-
  OlympSystem.Domain.IcpcRules — the ICPC rules, and that the standings follow them.

  The rules, for one user and one problem, from the user's counted submissions to it
  (`attempts`): the problem is solved when one of them is accepted; it then costs the
  time of the earliest acceptance plus 20 minutes for each attempt made before, a
  compilation error apart. Nothing here reads how the standings compute this.

  Proved:
  - `success_spec`: without scores the success a cell finds is the earliest acceptance.
  - `problemTime_cell` / `problemScore_cell`: a cell's time and score are the rules'.
  - `standing_follows_icpc`: so are those of every row, for all flags and start times.
-/

import Mathlib.Order.Defs.LinearOrder
import OlympSystem.Domain.Standing

namespace OlympSystem.Domain.IcpcRules

open Lib.Query Lib.Checked Standing

/-! ## The rules -/

section Rules

variable (now : Int) (contest : Contest) (notFreeze : Bool) (startTime : Option Int)

def contestStart : Int := startTime.getD contest.startTime

/-- A counted submission: visible, in the contest's window, judged, and not frozen. -/
def counts (s : Submission) : Bool :=
  !s.isHidden && decide (contestStart contest startTime ≤ s.commitTime) &&
    decide (s.commitTime ≤ contestStart contest startTime + contest.duration) &&
    decide (s.statusCode ≠ 0 ∧ s.statusCode ≠ 1) &&
    match contest.freezeTime with
    | some freezeTime => !(decide (freezeTime < now) && !notFreeze) || decide (s.commitTime < freezeTime)
    | none => true

def attempts (user : User) (problem : Problem) : List Submission :=
  problem.submissions.filter fun s => counts now contest notFreeze startTime s && s.userId == user.id

def acceptedAt (attempts : List Submission) : Option Int :=
  ((attempts.filter (·.statusCode == 2)).map Submission.commitTime).min?

def rejectedBefore (time : Int) (attempts : List Submission) : Nat :=
  attempts.countP fun s => decide (s.statusCode ≠ -1 ∧ s.statusCode ≠ 2 ∧ s.commitTime < time)

def problemTime (start : Int) (attempts : List Submission) : Int :=
  match acceptedAt attempts with
  | none => 0
  | some time => time - start + 20 * rejectedBefore time attempts * ticksPerMinute

def solvedCount (user : User) : Nat :=
  contest.problems.countP fun p => (acceptedAt (attempts now contest notFreeze startTime user p)).isSome

def totalTime (user : User) : Int :=
  (contest.problems.map fun p =>
    problemTime (contestStart contest startTime) (attempts now contest notFreeze startTime user p)).sum

end Rules

/-! ## The rules do not depend on the order of the attempts -/

theorem acceptedAt_eq_some {l : List Submission} {t : Int} : acceptedAt l = some t ↔
    (∃ s ∈ l, s.statusCode = 2 ∧ s.commitTime = t) ∧ ∀ s ∈ l, s.statusCode = 2 → t ≤ s.commitTime := by
  unfold acceptedAt
  rw [List.min?_eq_some_iff]
  simp only [List.mem_map, List.mem_filter, beq_iff_eq]
  constructor
  · rintro ⟨⟨s, ⟨hs, h2⟩, hst⟩, hle⟩
    exact ⟨⟨s, hs, h2, hst⟩, fun b hb hb2 => hle _ ⟨b, ⟨hb, hb2⟩, rfl⟩⟩
  · rintro ⟨⟨s, hs, h2, hst⟩, hle⟩
    refine ⟨⟨s, ⟨hs, h2⟩, hst⟩, ?_⟩
    rintro _ ⟨b, ⟨hb, hb2⟩, rfl⟩
    exact hle b hb hb2

theorem acceptedAt_eq_none {l : List Submission} : acceptedAt l = none ↔ ∀ s ∈ l, s.statusCode ≠ 2 := by
  simp [acceptedAt]

theorem acceptedAt_perm {l m : List Submission} (h : l.Perm m) : acceptedAt l = acceptedAt m := by
  cases hm : acceptedAt m with
  | none => exact acceptedAt_eq_none.mpr fun s hs => acceptedAt_eq_none.mp hm s (h.mem_iff.mp hs)
  | some t =>
    obtain ⟨⟨s, hs, hst⟩, hle⟩ := acceptedAt_eq_some.mp hm
    exact acceptedAt_eq_some.mpr ⟨⟨s, h.mem_iff.mpr hs, hst⟩, fun s hs => hle s (h.mem_iff.mp hs)⟩

theorem problemTime_perm {l m : List Submission} (h : l.Perm m) (start : Int) :
    problemTime start l = problemTime start m := by
  have hbefore : ∀ t, rejectedBefore t l = rejectedBefore t m := fun t => h.countP_eq _
  unfold problemTime
  rw [acceptedAt_perm h]
  simp only [hbefore]

/-! ## One cell -/

/-- What the rules assume of the counted attempts of a cell. -/
structure Plain (l : List Submission) : Prop where
  no_score : ∀ s ∈ l, s.score = none
  judged : ∀ s ∈ l, isJudged s = true
  distinct : l.Pairwise fun s s' => s.commitTime ≠ s'.commitTime

theorem isSuccessful_iff {s : Submission} (h : s.score = none) : isSuccessful s = true ↔ s.statusCode = 2 := by
  simp [isSuccessful, h]

/-- Without scores the success of a cell is the earliest acceptance. -/
theorem success_spec {l : List Submission} (hl : Plain l) {s : Submission} (h : success l = some s) :
    s ∈ l ∧ s.statusCode = 2 ∧ acceptedAt l = some s.commitTime := by
  obtain ⟨hs, hsucc⟩ := success_mem h
  have haccepted := (isSuccessful_iff (hl.no_score s hs)).mp hsucc
  refine ⟨hs, haccepted, acceptedAt_eq_some.mpr ⟨⟨s, hs, haccepted, rfl⟩, fun b hb hb2 => ?_⟩⟩
  have hle := success_best h b hb ((isSuccessful_iff (hl.no_score b hb)).mpr hb2)
  obtain ⟨-, htie⟩ := thenBy_true.mp hle
  have hnull : byNullable Submission.score s b = true := by simp [byNullable, hl.no_score s hs]
  simpa [descending, byKey] using htie hnull

theorem success_none {l : List Submission} (hl : Plain l) (h : success l = none) : acceptedAt l = none := by
  refine acceptedAt_eq_none.mpr fun s hs h2 => ?_
  have hsucc := (isSuccessful_iff (hl.no_score s hs)).mpr h2
  rw [success_eq_none.mp h s hs] at hsucc
  cases hsucc

theorem success_isSome {l : List Submission} (hl : Plain l) :
    (success l).isSome = (acceptedAt l).isSome := by
  cases h : success l with
  | none => rw [success_none hl h]; rfl
  | some s => rw [(success_spec hl h).2.2]; rfl

/-- An attempt other than the acceptance counts up to it exactly when it is rejected and before it. -/
theorem sign_iff {l : List Submission} (hl : Plain l) {s b : Submission} (h : success l = some s) (hb : b ∈ l)
    (hne : b.commitTime ≠ s.commitTime) :
    (isChecked b && decide (b.commitTime ≤ s.commitTime)) = true ↔
      decide (b.statusCode ≠ -1 ∧ b.statusCode ≠ 2 ∧ b.commitTime < s.commitTime) = true := by
  have hjudged := hl.judged b hb
  have hearliest := (acceptedAt_eq_some.mp (success_spec hl h).2.2).2 b hb
  simp only [isJudged, Bool.and_eq_true, Bool.not_eq_true', beq_eq_false_iff_ne] at hjudged
  simp only [isChecked, Bool.and_eq_true, Bool.not_eq_true', Bool.or_eq_false_iff, beq_eq_false_iff_ne,
    decide_eq_true_eq]
  omega

/-- Up to the acceptance there are the rejected attempts before it and the acceptance itself. -/
theorem commitNumber_eq {l : List Submission} (hl : Plain l) {s : Submission} (h : success l = some s) :
    (signSubmissions l).length = rejectedBefore s.commitTime l + 1 := by
  obtain ⟨hs, haccepted, -⟩ := success_spec hl h
  unfold signSubmissions
  rw [h]
  simp only [List.filter_filter]
  rw [← List.countP_eq_length_filter]
  unfold rejectedBefore
  have hother : ∀ m : List Submission, (∀ b ∈ m, b ∈ l ∧ b.commitTime ≠ s.commitTime) →
      m.countP (fun b => decide (b.commitTime ≤ s.commitTime) && isChecked b) =
        m.countP fun b => decide (b.statusCode ≠ -1 ∧ b.statusCode ≠ 2 ∧ b.commitTime < s.commitTime) := by
    intro m hm
    refine List.countP_congr fun b hb => ?_
    rw [Bool.and_comm]
    exact sign_iff hl h (hm b hb).1 (hm b hb).2
  -- split the attempts at the acceptance: all others have other times
  obtain ⟨before, after, rfl⟩ := List.append_of_mem hs
  have hd := hl.distinct
  rw [List.pairwise_append] at hd
  obtain ⟨-, hafter, hbefore⟩ := hd
  rw [List.pairwise_cons] at hafter
  rw [List.countP_append, List.countP_append, List.countP_cons, List.countP_cons,
    hother before fun b hb => ⟨by simp [hb], hbefore b hb s (by simp)⟩,
    hother after fun b hb => ⟨by simp [hb], (hafter.1 b hb).symm⟩]
  have hself : isChecked s = true := by simp [isChecked, haccepted]
  simp only [hself, le_refl, decide_true, Bool.and_true, if_pos, lt_irrefl, and_false, decide_false,
    Bool.false_eq_true, if_false]
  omega

theorem lastCommitTime_eq {l : List Submission} (hl : Plain l) {s : Submission} (h : success l = some s) :
    lastCommitTime (signSubmissions l) = s.commitTime := by
  obtain ⟨-, haccepted, -⟩ := success_spec hl h
  exact lastCommitTime_success h (by simp [isChecked, haccepted])

theorem problemTime_cell {l : List Submission} (hl : Plain l) (problem : Problem) (first : Bool) (start : Int) :
    (userProblemResult problem l first).summaryTime .exact start penalty = problemTime start l := by
  unfold UserProblemResult.summaryTime userProblemResult problemTime
  simp only
  cases h : success l with
  | none => rw [success_none hl h]; rfl
  | some s =>
    rw [(success_spec hl h).2.2, commitNumber_eq hl h, lastCommitTime_eq hl h]
    show s.commitTime - start + penalty * (((rejectedBefore s.commitTime l + 1 : Nat) : Int) - 1) * ticksPerMinute = _
    have : (((rejectedBefore s.commitTime l + 1 : Nat) : Int) - 1) = rejectedBefore s.commitTime l := by omega
    rw [this]; rfl

theorem problemScore_cell {l : List Submission} (hl : Plain l) (problem : Problem) (first : Bool) :
    (userProblemResult problem l first).score = if (acceptedAt l).isSome then 1 else 0 := by
  show cellScore (success l) = _
  rw [← success_isSome hl]
  cases h : success l with
  | none => rfl
  | some s => simp [cellScore, hl.no_score s (success_spec hl h).1]

/-! ## Whole rows -/

section Rows

variable (culture : Culture) (now : Int) {contest : Contest}

/-- The contests the rules speak of: no scores, and no user sends in twice at one time. -/
structure IcpcContest (contest : Contest) : Prop where
  no_score : ∀ p ∈ contest.problems, ∀ s ∈ p.submissions, s.score = none
  distinct : ∀ p ∈ contest.problems,
    p.submissions.Pairwise fun s s' => s.userId = s'.userId → s.commitTime ≠ s'.commitTime

theorem counts_eq (notFreeze : Bool) (startTime : Option Int) (s : Submission) :
    isCounted now contest notFreeze (standingStart contest startTime) s = counts now contest notFreeze startTime s := by
  unfold isCounted counts inWindow isJudged beforeFreeze Contest.isFreeze
  cases contest.freezeTime <;> rw [Bool.eq_iff_iff] <;> simp [standingStart, contestStart, and_assoc] <;>
    exact fun _ => Iff.rfl

theorem attempts_perm {p : Problem} (hp : p ∈ contest.problems) (notFreeze : Bool) (startTime : Option Int)
    (user : User) : (cellSubmissions now contest notFreeze (standingStart contest startTime) user.id p).Perm
      (attempts now contest notFreeze startTime user p) := by
  have h := standingSubmissions_perm now notFreeze (standingStart contest startTime) user.id hp
  simp only [counts_eq] at h
  exact h

theorem plain_attempts (h : IcpcContest contest) {p : Problem} (hp : p ∈ contest.problems) (notFreeze : Bool)
    (startTime : Option Int) (user : User) : Plain (attempts now contest notFreeze startTime user p) where
  no_score s hs := h.no_score p hp s (List.mem_filter.mp hs).1
  judged s hs := by
    have hc := (List.mem_filter.mp hs).2
    rw [← counts_eq] at hc
    simp only [isCounted, Bool.and_eq_true] at hc
    exact hc.1.1.2
  distinct := by
    have hsub := (h.distinct p hp).sublist
      (List.filter_sublist (p := fun s => counts now contest notFreeze startTime s && s.userId == user.id))
    refine hsub.imp_of_mem fun {s s'} hs hs' hne => hne ?_
    have hu := (List.mem_filter.mp hs).2
    have hu' := (List.mem_filter.mp hs').2
    simp only [Bool.and_eq_true, beq_iff_eq] at hu hu'
    rw [hu.2, hu'.2]

theorem plain_perm {l m : List Submission} (h : l.Perm m) (hm : Plain m) : Plain l where
  no_score s hs := hm.no_score s (h.mem_iff.mp hs)
  judged s hs := hm.judged s (h.mem_iff.mp hs)
  distinct := (h.pairwise_iff fun hne => hne.symm).mpr hm.distinct

variable (contest) (notFreeze : Bool) (startTime : Option Int) (firstSuccess : List (Int × Int)) (user : User)

def rowCells : List UserProblemResult :=
  userProblemStanding (standingProblems contest)
    (groupJoin user.id Submission.userId
      (standingSubmissions now contest notFreeze (standingStart contest startTime)))
    (some (firstSuccessOf firstSuccess user.id))

/-- The row the rules give a user, with those cells. -/
def icpcRow : UserResult where
  user := user
  score := solvedCount now contest notFreeze startTime user
  summaryTime := totalTime now contest notFreeze startTime user
  startTime := standingStart contest startTime
  problemResults := rowCells now contest notFreeze startTime firstSuccess user

variable {contest}

theorem plain_cell (h : IcpcContest contest) {p : Problem} (hp : p ∈ standingProblems contest) :
    Plain (cellSubmissions now contest notFreeze (standingStart contest startTime) user.id p) :=
  plain_perm (attempts_perm now (mem_orderBy.mp hp) notFreeze startTime user)
    (plain_attempts now h (mem_orderBy.mp hp) notFreeze startTime user)

def solves (contest : Contest) (p : Problem) : Bool :=
  (acceptedAt (attempts now contest notFreeze startTime user p)).isSome

theorem cells_score (h : IcpcContest contest) :
    (rowCells now contest notFreeze startTime firstSuccess user).map UserProblemResult.score =
      (standingProblems contest).map fun p => if solves now notFreeze startTime user contest p then 1 else 0 := by
  unfold rowCells userProblemStanding
  rw [List.map_map]
  refine List.map_congr_left fun p hp => ?_
  unfold solves
  rw [← acceptedAt_perm (attempts_perm now (mem_orderBy.mp hp) notFreeze startTime user)]
  exact problemScore_cell (plain_cell now notFreeze startTime user h hp) p _

theorem cells_time (h : IcpcContest contest) :
    (rowCells now contest notFreeze startTime firstSuccess user).map
        (·.summaryTime .exact (standingStart contest startTime) penalty) =
      (standingProblems contest).map fun p =>
        problemTime (contestStart contest startTime) (attempts now contest notFreeze startTime user p) := by
  unfold rowCells userProblemStanding
  rw [List.map_map]
  refine List.map_congr_left fun p hp => ?_
  rw [← problemTime_perm (attempts_perm now (mem_orderBy.mp hp) notFreeze startTime user)]
  exact problemTime_cell (plain_cell now notFreeze startTime user h hp) p _ _

/-- The checked sum of a row is the number of problems solved. -/
theorem cells_sum (h : IcpcContest contest) :
    sumInt32 ((rowCells now contest notFreeze startTime firstSuccess user).map UserProblemResult.score) =
      some (solvedCount now contest notFreeze startTime user : Int) := by
  have hcount : ((standingProblems contest).map fun p =>
      if solves now notFreeze startTime user contest p then (1 : Int) else 0).sum =
        solvedCount now contest notFreeze startTime user := by
    rw [sum_indicator]
    exact congrArg _ ((orderBy_perm _ _).countP_eq _)
  have hbound : solvedCount now contest notFreeze startTime user ≤ maxCount :=
    (List.countP_le_length).trans contest.problem_count
  rw [cells_score now notFreeze startTime firstSuccess user h, ← hcount]
  refine checkedSum_of_nonneg ?_ (by decide) ?_
  · intro x hx
    obtain ⟨p, -, rfl⟩ := List.mem_map.mp hx
    split <;> omega
  · rw [hcount]
    unfold maxCount at hbound
    unfold int32Max
    omega

theorem userResult_icpc (h : IcpcContest contest) :
    userResult .exact penalty (standingStart contest startTime) (standingProblems contest)
      (standingSubmissions now contest notFreeze (standingStart contest startTime)) firstSuccess user =
        .ok (icpcRow now contest notFreeze startTime firstSuccess user) := by
  have hsum := cells_sum now notFreeze startTime firstSuccess user h
  have htime := cells_time now notFreeze startTime firstSuccess user h
  unfold rowCells at hsum htime
  unfold userResult
  simp only [hsum, htime]
  have htotal : ((standingProblems contest).map fun p =>
      problemTime (contestStart contest startTime) (attempts now contest notFreeze startTime user p)).sum =
        totalTime now contest notFreeze startTime user := ((orderBy_perm _ _).map _).sum_eq
  show Except.ok (UserResult.mk user _ (List.sum _) _ _) = _
  rw [htotal]
  rfl

/-- Every row follows the rules. -/
theorem standing_follows_icpc (h : IcpcContest contest) (hschool : contest.isSchool culture = false)
    (includeAll official notFreeze : Bool) (startTime : Option Int) :
    ∃ rows, newStanding culture .exact now contest includeAll official notFreeze startTime = .ok rows ∧
      ∀ row ∈ rows, row.score = solvedCount now contest notFreeze startTime row.user ∧
        row.summaryTime = totalTime now contest notFreeze startTime row.user := by
  have hrows := newStanding_ok culture .exact now contest includeAll official notFreeze startTime _ (fun user => by
      rw [hschool]
      exact userResult_icpc now notFreeze startTime _ user h)
  refine ⟨_, hrows, fun row hrow => ?_⟩
  obtain ⟨user, -, rfl⟩ := List.mem_map.mp (mem_orderBy.mp hrow)
  exact ⟨rfl, rfl⟩

end Rows

def sampleUser : User := ⟨7, "team", false, false, some ⟨true, false⟩⟩

theorem sampleUser_competes : sampleUser.competitor = some ⟨true, false⟩ := rfl

def sampleContest : Contest where
  abbr := "acm"
  startTime := 0
  endTime := 300 * ticksPerMinute
  freezeTime := none
  problems := [⟨1, 1, [⟨1, -1002, false, 10 * ticksPerMinute, none, sampleUser, 1⟩,
    ⟨2, 2, false, 30 * ticksPerMinute, none, sampleUser, 1⟩], by decide⟩]
  competitors := [⟨sampleUser, ⟨true, false⟩, sampleUser_competes⟩]
  problem_ids := by decide
  problem_count := by decide

theorem sample_follows_icpc :
    ∃ rows, newStanding .ordinal .exact 0 sampleContest true false false none = .ok rows ∧
      ∀ row ∈ rows, row.score = solvedCount 0 sampleContest false none row.user ∧
        row.summaryTime = totalTime 0 sampleContest false none row.user := by
  have h : IcpcContest sampleContest := ⟨by decide, by decide⟩
  exact standing_follows_icpc .ordinal 0 h (by decide) true false false none

example : totalTime 0 sampleContest false none sampleUser = 50 * ticksPerMinute := by decide

end OlympSystem.Domain.IcpcRules
