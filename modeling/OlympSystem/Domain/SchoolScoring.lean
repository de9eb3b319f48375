/-
  OlympSystem.Domain.SchoolScoring — the cells of a school contest.

  There the penalty is 0 and attempts have scores. `Best` says of a user's attempts what
  their best is and when it was first reached; it reads neither their order nor how the
  standings look for it.

  Proved:
  - `cell_best` / `cell_unrewarded`: what a cell shows.
  - `best_added`: an attempt that is later and not better leaves the best as it is.
  - `cell_grows`: no attempt makes the score smaller.
  - `school_scoring`: all of it of the rows of a school contest.
-/

import Mathlib.Algebra.Order.BigOperators.Group.List
import OlympSystem.Domain.CollectionOrder

namespace OlympSystem.Domain.SchoolScoring

open Lib.Query Lib.Checked Standing
open IcpcRules (counts contestStart attempts rowCells)
open Rows (cellOf penaltyOf read shown)

/-! ## The best attempt -/

def Rewarded (s : Submission) : Prop := s.statusCode = 2 ∨ ∃ n, s.score = some n ∧ 0 < n

/-- Attempts with status -1 have no score, all others one that is not negative. -/
def SchoolScored (s : Submission) : Prop :=
  (s.statusCode = -1 → s.score = none) ∧ (s.statusCode ≠ -1 → ∃ n, s.score = some n ∧ 0 ≤ n)

/-- Among the rewarded attempts `best` is the greatest score, first reached at `time`. -/
structure Best (l : List Submission) (best time : Int) : Prop where
  reached : ∃ s ∈ l, Rewarded s ∧ s.score = some best ∧ s.commitTime = time
  greatest : ∀ s ∈ l, Rewarded s → ∀ n, s.score = some n → n ≤ best
  earliest : ∀ s ∈ l, Rewarded s → s.score = some best → time ≤ s.commitTime

section Attempts

variable {l m : List Submission} {best time : Int}

theorem isSuccessful_iff {s : Submission} : isSuccessful s = true ↔ Rewarded s := by
  unfold isSuccessful Rewarded
  cases s.score <;> simp

theorem best_perm (hp : l.Perm m) (h : Best l best time) : Best m best time := by
  obtain ⟨s, hs, hreached⟩ := h.reached
  exact ⟨⟨s, hp.mem_iff.mp hs, hreached⟩, fun b hb => h.greatest b (hp.mem_iff.mpr hb),
    fun b hb => h.earliest b (hp.mem_iff.mpr hb)⟩

theorem best_unique {best' time' : Int} (h : Best l best time) (h' : Best l best' time') :
    best = best' ∧ time = time' := by
  obtain ⟨s, hs, hrewarded, hscore, htime⟩ := h.reached
  obtain ⟨s', hs', hrewarded', hscore', htime'⟩ := h'.reached
  have hbest : best = best' :=
    le_antisymm (h'.greatest s hs hrewarded best hscore) (h.greatest s' hs' hrewarded' best' hscore')
  subst hbest
  have hle := h.earliest s' hs' hrewarded' hscore'
  have hle' := h'.earliest s hs hrewarded hscore
  exact ⟨rfl, by omega⟩

/-- A rewarded attempt is none with status -1. -/
theorem rewarded_score {s : Submission} (hs : SchoolScored s) (h : Rewarded s) :
    s.statusCode ≠ -1 ∧ ∃ n, s.score = some n ∧ 0 ≤ n := by
  have hne : s.statusCode ≠ -1 := by
    intro heq
    rcases h with h2 | ⟨n, hn, -⟩
    · omega
    · rw [hs.1 heq] at hn; cases hn
  exact ⟨hne, hs.2 hne⟩

/-- What a cell takes as its success is the best attempt. -/
theorem best_of_success (hscored : ∀ s ∈ l, SchoolScored s) {s : Submission} (h : success l = some s) :
    ∃ n, s.score = some n ∧ Best l n s.commitTime := by
  obtain ⟨hs, hsucc⟩ := success_mem h
  have hrewarded := isSuccessful_iff.mp hsucc
  obtain ⟨-, n, hn, -⟩ := rewarded_score (hscored s hs) hrewarded
  refine ⟨n, hn, ⟨s, hs, hrewarded, hn, rfl⟩, fun b hb hr k hk => ?_, fun b hb hr hbest => ?_⟩
  · have hle := (thenBy_true.mp (success_best h b hb (isSuccessful_iff.mpr hr))).1
    simpa [byNullable, hn, hk] using hle
  · have htie := (thenBy_true.mp (success_best h b hb (isSuccessful_iff.mpr hr))).2
    have hle : byNullable Submission.score s b = true := by simp [byNullable, hn, hbest]
    simpa [descending, byKey] using htie hle

theorem not_rewarded_of_none (h : success l = none) : ∀ s ∈ l, ¬Rewarded s := by
  intro s hs hr
  have hnone := success_eq_none.mp h s hs
  rw [isSuccessful_iff.mpr hr] at hnone
  cases hnone

theorem best_exists (hscored : ∀ s ∈ l, SchoolScored s) (h : ∃ s ∈ l, Rewarded s) : ∃ best time, Best l best time := by
  obtain ⟨s, hs, hr⟩ := h
  cases hsucc : success l with
  | none => exact absurd hr (not_rewarded_of_none hsucc s hs)
  | some s =>
    obtain ⟨n, -, hbest⟩ := best_of_success hscored hsucc
    exact ⟨n, s.commitTime, hbest⟩

/-! ## Cells -/

variable (problem : Problem) (first : Bool)

theorem cell_best (hscored : ∀ s ∈ l, SchoolScored s) (hjudged : ∀ s ∈ l, isJudged s = true) (h : Best l best time) :
    (userProblemResult problem l first).isSuccess = true ∧ (userProblemResult problem l first).score = best ∧
      (userProblemResult problem l first).lastCommitTime = time := by
  cases hsucc : success l with
  | none =>
    obtain ⟨s, hs, hr, -⟩ := h.reached
    exact absurd hr (not_rewarded_of_none hsucc s hs)
  | some s =>
    obtain ⟨n, hn, hbest⟩ := best_of_success hscored hsucc
    obtain ⟨rfl, rfl⟩ := best_unique h hbest
    obtain ⟨hs, hr⟩ := success_mem hsucc
    have hchecked : isChecked s = true := by
      have hne := (rewarded_score (hscored s hs) (isSuccessful_iff.mp hr)).1
      have hj := hjudged s hs
      simp only [isJudged, Bool.and_eq_true, Bool.not_eq_true', beq_eq_false_iff_ne] at hj
      simp [isChecked, hne, hj]
    refine ⟨?_, ?_, lastCommitTime_success hsucc hchecked⟩
    · simp [userProblemResult, hsucc]
    · simp [userProblemResult, cellScore, hsucc, hn]

theorem cell_unrewarded (h : ¬∃ s ∈ l, Rewarded s) :
    (userProblemResult problem l first).isSuccess = false ∧ (userProblemResult problem l first).score = 0 := by
  have hnone : success l = none := by
    refine success_eq_none.mpr fun s hs => ?_
    by_contra hsucc
    rw [Bool.not_eq_false] at hsucc
    exact h ⟨s, hs, isSuccessful_iff.mp hsucc⟩
  simp [userProblemResult, cellScore, hnone]

/-- Without a penalty a success adds the time since the start. -/
theorem summaryTime_school (ms : Milliseconds) (cell : UserProblemResult) (start : Int) :
    cell.summaryTime ms start 0 = if cell.isSuccess then ms.totalMilliseconds
      (cell.lastCommitTime - start) else ms.zero := by
  unfold UserProblemResult.summaryTime
  simp

/-! ## One attempt more -/

variable {added : Submission}

/-- A later attempt that is not better. -/
theorem best_added (h : Best l best time) (hscore : ∀ n, added.score = some n → n ≤ best)
    (htime : time ≤ added.commitTime) : Best (added :: l) best time := by
  obtain ⟨s, hs, hreached⟩ := h.reached
  refine ⟨⟨s, List.mem_cons_of_mem _ hs, hreached⟩, fun b hb hr => ?_, fun b hb hr hn => ?_⟩
  · rcases List.mem_cons.mp hb with rfl | hb
    · exact hscore
    · exact h.greatest b hb hr
  · rcases List.mem_cons.mp hb with rfl | hb
    · exact htime
    · exact h.earliest b hb hr hn

/-- It leaves what the cell shows as it is. -/
theorem cell_noBetter (hscored : ∀ s ∈ added :: l, SchoolScored s) (hjudged : ∀ s ∈ added :: l, isJudged s = true)
    (h : Best l best time) (hscore : ∀ n, added.score = some n → n ≤ best) (htime : time ≤ added.commitTime)
    (ms : Milliseconds) (start : Int) :
    (userProblemResult problem (added :: l) first).score = (userProblemResult problem l first).score ∧
      (userProblemResult problem (added :: l) first).summaryTime ms start 0 =
        (userProblemResult problem l first).summaryTime ms start 0 := by
  obtain ⟨hsuccess, hbest, hlast⟩ := cell_best problem first (fun s hs => hscored s (List.mem_cons_of_mem _ hs))
    (fun s hs => hjudged s (List.mem_cons_of_mem _ hs)) h
  obtain ⟨hsuccess', hbest', hlast'⟩ := cell_best problem first hscored hjudged (best_added h hscore htime)
  refine ⟨by rw [hbest, hbest'], ?_⟩
  rw [summaryTime_school, summaryTime_school, hsuccess, hsuccess', hlast, hlast']

/-- The score of a cell does not fall when an attempt is added. -/
theorem cell_grows (hscored : ∀ s ∈ added :: l, SchoolScored s) (hjudged : ∀ s ∈ added :: l, isJudged s = true) :
    (userProblemResult problem l first).score ≤ (userProblemResult problem (added :: l) first).score := by
  have hscored' : ∀ s ∈ l, SchoolScored s := fun s hs => hscored s (List.mem_cons_of_mem _ hs)
  have hjudged' : ∀ s ∈ l, isJudged s = true := fun s hs => hjudged s (List.mem_cons_of_mem _ hs)
  have hnonneg : 0 ≤ (userProblemResult problem (added :: l) first).score := by
    by_cases hr : ∃ s ∈ added :: l, Rewarded s
    · obtain ⟨best, time, hbest⟩ := best_exists hscored hr
      obtain ⟨s, hs, hrewarded, hscore, -⟩ := hbest.reached
      obtain ⟨-, n, hn, hpos⟩ := rewarded_score (hscored s hs) hrewarded
      rw [(cell_best problem first hscored hjudged hbest).2.1]
      rw [hscore] at hn
      cases hn
      exact hpos
    · rw [(cell_unrewarded problem first hr).2]
  by_cases hr : ∃ s ∈ l, Rewarded s
  · obtain ⟨best, time, hbest⟩ := best_exists hscored' hr
    obtain ⟨s, hs, hrewarded, hscore, -⟩ := hbest.reached
    have hmem : s ∈ added :: l := List.mem_cons_of_mem _ hs
    obtain ⟨best', time', hbest'⟩ := best_exists hscored ⟨s, hmem, hrewarded⟩
    rw [(cell_best problem first hscored' hjudged' hbest).2.1, (cell_best problem first hscored hjudged hbest').2.1]
    exact hbest'.greatest s hmem hrewarded best hscore
  · rw [(cell_unrewarded problem first hr).2]
    exact hnonneg

end Attempts

/-! ## One submission more -/

structure Extends (added : Submission) (p p' : Problem) : Prop where
  id : p'.id = p.id
  number : p'.number = p.number
  submissions : p'.submissions.Perm ([added].filter (·.problemId == p.id) ++ p.submissions)

structure Adds (added : Submission) (c c' : Contest) : Prop where
  abbr : c'.abbr = c.abbr
  startTime : c'.startTime = c.startTime
  endTime : c'.endTime = c.endTime
  freezeTime : c'.freezeTime = c.freezeTime
  competitors : c'.competitors = c.competitors
  problems : List.Forall₂ (Extends added) c.problems c'.problems

section Contests

variable (culture : Culture) (ms : Milliseconds) (now : Int) {c c' : Contest} {added : Submission}
  (includeAll official notFreeze : Bool) (startTime : Option Int)

theorem start_adds (h : Adds added c c') : contestStart c' startTime = contestStart c startTime := by
  unfold contestStart
  rw [h.startTime]

theorem counts_adds (h : Adds added c c') (s : Submission) :
    counts now c' notFreeze startTime s = counts now c notFreeze startTime s := by
  unfold counts contestStart Contest.duration
  rw [h.startTime, h.endTime, h.freezeTime]

theorem standingProblems_adds (h : Adds added c c') :
    List.Forall₂ (Extends added) (standingProblems c) (standingProblems c') := by
  refine orderBy_forall₂ (fun p p' q q' hp hq => ?_) h.problems
  simp only [byKey, hp.number, hq.number]

def AddsTo (c : Contest) (added : Submission) (userId problemId : Int) : Prop :=
  counts now c notFreeze startTime added = true ∧ added.userId = userId ∧ added.problemId = problemId

theorem attempts_adds (h : Adds added c c') {p p' : Problem} (hp : Extends added p p') {user user' : User}
    (hid : user'.id = user.id) :
    (AddsTo now notFreeze startTime c added user.id p.id ∧ (attempts now c' notFreeze startTime user' p').Perm
      (added :: attempts now c notFreeze startTime user p)) ∨
    (¬AddsTo now notFreeze startTime c added user.id p.id ∧ (attempts now c' notFreeze startTime user' p').Perm
      (attempts now c notFreeze startTime user p)) := by
  have hperm := hp.submissions.filter fun s => counts now c' notFreeze startTime s && s.userId == user'.id
  unfold attempts AddsTo
  simp only [counts_adds now notFreeze startTime h, hid, List.filter_append, List.filter_filter] at hperm ⊢
  by_cases ha : counts now c notFreeze startTime added = true ∧ added.userId = user.id ∧ added.problemId = p.id
  · refine Or.inl ⟨ha, ?_⟩
    simpa [ha.1, ha.2.1, ha.2.2] using hperm
  · refine Or.inr ⟨ha, ?_⟩
    have hnone : [added].filter (fun s => counts now c notFreeze startTime s && s.userId == user.id &&
        s.problemId == p.id) = [] := by
      rw [List.filter_eq_nil_iff]
      intro s hs
      rw [List.mem_singleton.mp hs]
      simpa [and_assoc] using ha
    rw [hnone] at hperm
    exact hperm

theorem judged_attempts {user : User} {p : Problem} :
    ∀ s ∈ attempts now c notFreeze startTime user p, isJudged s = true := by
  intro s hs
  have hc := (List.mem_filter.mp hs).2
  simp only [counts, Bool.and_eq_true, decide_eq_true_eq] at hc
  simp [isJudged, hc.1.1.2]

/-- The submissions of a cell are the attempts, in some order. -/
theorem cell_attempts {p : Problem} (hp : p ∈ c.problems) (user : User) :
    (cellSubmissions now c notFreeze (contestStart c startTime) user.id p).Perm
      (attempts now c notFreeze startTime user p) :=
  IcpcRules.attempts_perm now hp notFreeze startTime user

/-! ## What a cell shows -/

/-- A cell of a school contest shows the best attempt and when it was first made, or nothing. -/
structure ShowsBest (l : List Submission) (start cost : Int) (cell : UserProblemResult) : Prop where
  rewarded : (∃ s ∈ l, Rewarded s) → ∃ best time, Best l best time ∧ cell.score = best ∧
    cell.lastCommitTime = time ∧ cell.summaryTime ms start cost = ms.totalMilliseconds (time - start)
  unrewarded : (¬∃ s ∈ l, Rewarded s) → cell.score = 0 ∧ cell.summaryTime ms start cost = ms.zero

theorem shows_best {p : Problem} (hp : p ∈ c.problems) {user : User} (first : Bool)
    (hscored : ∀ s ∈ attempts now c notFreeze startTime user p, SchoolScored s) (start : Int) :
    ShowsBest ms (attempts now c notFreeze startTime user p) start 0
      (userProblemResult p (cellSubmissions now c notFreeze (contestStart c startTime) user.id p) first) := by
  have hperm := cell_attempts now notFreeze startTime hp user
  have hscored' : ∀ s ∈ cellSubmissions now c notFreeze (contestStart c startTime) user.id p, SchoolScored s :=
    fun s hs => hscored s (hperm.mem_iff.mp hs)
  have hjudged' : ∀ s ∈ cellSubmissions now c notFreeze (contestStart c startTime) user.id p, isJudged s = true :=
    fun s hs => judged_attempts now notFreeze startTime s (hperm.mem_iff.mp hs)
  constructor
  · intro hr
    obtain ⟨best, time, hbest⟩ := best_exists hscored hr
    obtain ⟨hsuccess, hscore, htime⟩ := cell_best p first hscored' hjudged' (best_perm hperm.symm hbest)
    refine ⟨best, time, hbest, hscore, htime, ?_⟩
    rw [summaryTime_school, if_pos hsuccess, htime]
  · intro hr
    have hr' : ¬∃ s ∈ cellSubmissions now c notFreeze (contestStart c startTime) user.id p, Rewarded s := by
      rintro ⟨s, hs, hrewarded⟩
      exact hr ⟨s, hperm.mem_iff.mp hs, hrewarded⟩
    obtain ⟨hsuccess, hscore⟩ := cell_unrewarded p first hr'
    refine ⟨hscore, ?_⟩
    rw [summaryTime_school, hsuccess]
    rfl

def totals (scores : List Int) (times : List ms.Dbl) : Except Exn (Int × Int) :=
  match sumInt32 scores with
  | none => .error .overflow
  | some score => (ms.fromMilliseconds (ms.sum times)).map (score, ·)

theorem rowOf_totals (user : User) :
    (Rows.rowOf culture ms now includeAll official notFreeze startTime c user).map
    (fun row => (row.score, row.summaryTime)) =
      totals ms ((standingProblems c).map fun p => (cellOf now c notFreeze startTime user p).score)
        ((standingProblems c).map fun p => (cellOf now c notFreeze startTime user p).summaryTime ms
          (contestStart c startTime) (penaltyOf culture c)) := by
  rw [← Rows.rowCells_score now notFreeze startTime
    (FirstSuccess.marks now includeAll official notFreeze startTime c) user,
    ← Rows.rowCells_time ms now notFreeze startTime
      (FirstSuccess.marks now includeAll official notFreeze startTime c) user]
  unfold totals
  simp only [Rows.rowOf, userResult, rowCells]
  generalize userProblemStanding _ _ _ = cells
  cases sumInt32 (cells.map UserProblemResult.score) with
  | none => rfl
  | some score =>
    cases htime : ms.fromMilliseconds (ms.sum (cells.map (·.summaryTime ms (contestStart c startTime)
      (penaltyOf culture c)))) with
    | error e =>
      unfold contestStart penaltyOf at htime
      dsimp only [standingStart, penalty]
      rw [htime]
      rfl
    | ok time =>
      unfold contestStart penaltyOf at htime
      dsimp only [standingStart, penalty]
      rw [htime]
      rfl

/-! ## The cells of the larger contest -/

/-- The scores of the submissions a cell is computed from, and of the one added to them. -/
def ScoredFor (c : Contest) (added : Submission) (user : User) (p : Problem) : Prop :=
  AddsTo now notFreeze startTime c added user.id p.id →
    (∀ s ∈ attempts now c notFreeze startTime user p, SchoolScored s) ∧ SchoolScored added

/-- The submission is not better than what its author has for the problem, and not earlier. -/
def NoBetter (c : Contest) (added : Submission) (user : User) (p : Problem) : Prop :=
  AddsTo now notFreeze startTime c added user.id p.id →
    ∃ best time, Best (attempts now c notFreeze startTime user p) best time ∧
      (∀ n, added.score = some n → n ≤ best) ∧ time ≤ added.commitTime

variable {user user' : User} {p p' : Problem}

theorem judged_added (hadds : AddsTo now notFreeze startTime c added user.id p.id) :
    ∀ s ∈ added :: attempts now c notFreeze startTime user p, isJudged s = true := by
  intro s hs
  rcases List.mem_cons.mp hs with rfl | hs
  · have hc := hadds.1
    simp only [counts, Bool.and_eq_true, decide_eq_true_eq] at hc
    simp [isJudged, hc.1.2]
  · exact judged_attempts now notFreeze startTime s hs

/-- Cells with the same submissions have the same score and time. -/
theorem cells_perm {l l' : List Submission} (hl : l'.Perm l) (hid : p'.id = p.id) (start cost : Int) :
    (userProblemResult p' l' false).score = (userProblemResult p l false).score ∧
      (userProblemResult p' l' false).summaryTime ms start cost =
      (userProblemResult p l false).summaryTime ms start cost := by
  have hview := CollectionOrder.cell_perm hl hid false
  exact ⟨congrArg Freeze.CellView.score hview, congrArg (Freeze.viewTime ms start cost) hview⟩

/-- A cell is that of the attempts. -/
theorem cellOf_attempts (hmem : p ∈ c.problems) (user : User) (start cost : Int) :
    (cellOf now c notFreeze startTime user p).score =
        (userProblemResult p (attempts now c notFreeze startTime user p) false).score ∧
      (cellOf now c notFreeze startTime user p).summaryTime ms start cost =
        (userProblemResult p (attempts now c notFreeze startTime user p) false).summaryTime ms start cost :=
  cells_perm ms (cell_attempts now notFreeze startTime hmem user) rfl start cost

theorem cellOf_noBetter (h : Adds added c c') (hp : Extends added p p') (hmem : p ∈ c.problems)
    (hmem' : p' ∈ c'.problems) (hid : user'.id = user.id) (hscored : ScoredFor now notFreeze startTime c added user p)
    (hworse : NoBetter now notFreeze startTime c added user p) (start : Int) :
    (cellOf now c' notFreeze startTime user' p').score = (cellOf now c notFreeze startTime user p).score ∧
      (cellOf now c' notFreeze startTime user' p').summaryTime ms start 0 =
        (cellOf now c notFreeze startTime user p).summaryTime ms start 0 := by
  obtain ⟨hscore, htime⟩ := cellOf_attempts ms now notFreeze startTime hmem user start 0
  obtain ⟨hscore', htime'⟩ := cellOf_attempts ms now notFreeze startTime hmem' user' start 0
  rw [hscore, htime, hscore', htime']
  rcases attempts_adds now notFreeze startTime h hp hid with ⟨hadds, hl⟩ | ⟨-, hl⟩
  · obtain ⟨hall, hadded⟩ := hscored hadds
    obtain ⟨best, time, hbest, hle, hlater⟩ := hworse hadds
    obtain ⟨hsame, hsame'⟩ := cell_noBetter p false (List.forall_mem_cons.mpr ⟨hadded, hall⟩)
      (judged_added now notFreeze startTime hadds) hbest hle hlater ms start
    obtain ⟨hperm, hperm'⟩ := cells_perm ms hl hp.id start 0
    exact ⟨hperm.trans hsame, hperm'.trans hsame'⟩
  · exact cells_perm ms hl hp.id start 0

theorem cellOf_grows (h : Adds added c c') (hp : Extends added p p') (hmem : p ∈ c.problems) (hmem' : p' ∈ c'.problems)
    (hid : user'.id = user.id) (hscored : ScoredFor now notFreeze startTime c added user p) :
    (cellOf now c notFreeze startTime user p).score ≤ (cellOf now c' notFreeze startTime user' p').score := by
  rw [(cellOf_attempts .exact now notFreeze startTime hmem user 0 0).1,
    (cellOf_attempts .exact now notFreeze startTime hmem' user' 0 0).1]
  rcases attempts_adds now notFreeze startTime h hp hid with ⟨hadds, hl⟩ | ⟨-, hl⟩
  · obtain ⟨hall, hadded⟩ := hscored hadds
    rw [(cells_perm .exact hl hp.id 0 0).1]
    exact cell_grows p false (List.forall_mem_cons.mpr ⟨hadded, hall⟩) (judged_added now notFreeze startTime hadds)
  · rw [(cells_perm .exact hl hp.id 0 0).1]

/-! ## The rows of the larger contest -/

/-- The authors who count in the larger contest counted before, or are the author of the submission. -/
theorem author_adds (h : Adds added c c') {user : User} (hauthor : Rows.IsAuthor now c' notFreeze startTime user) :
    added.user = user ∨ Rows.IsAuthor now c notFreeze startTime user := by
  obtain ⟨p', hp', s, hs, hcounts, huser⟩ := hauthor
  obtain ⟨p, hp, hextends⟩ := (forall₂_exists h.problems).2 p' hp'
  rw [counts_adds now notFreeze startTime h] at hcounts
  rcases List.mem_append.mp (hextends.submissions.mem_iff.mp hs) with hadded | hold
  · rw [List.mem_singleton.mp (List.mem_filter.mp hadded).1] at huser
    exact Or.inl huser
  · exact Or.inr ⟨p, hp, s, hold, hcounts, huser⟩

theorem author_stays (h : Adds added c c') {user : User} (hauthor : Rows.IsAuthor now c notFreeze startTime user) :
    Rows.IsAuthor now c' notFreeze startTime user := by
  obtain ⟨p, hp, s, hs, hcounts, huser⟩ := hauthor
  obtain ⟨p', hp', hextends⟩ := (forall₂_exists h.problems).1 p hp
  refine ⟨p', hp', s, hextends.submissions.mem_iff.mpr (List.mem_append_right _ hs), ?_, huser⟩
  rw [counts_adds now notFreeze startTime h]
  exact hcounts

/-- A submission of a user who is shown changes nobody else's being shown. -/
theorem shown_adds (h : Adds added c c')
    (hshown : added.userId ∈ (shown now includeAll official notFreeze startTime c).map User.id) {id : Int} :
    id ∈ (shown now includeAll official notFreeze startTime c').map User.id ↔
      id ∈ (shown now includeAll official notFreeze startTime c).map User.id := by
  have hcompetitors : standingCompetitors c' official startTime = standingCompetitors c official startTime := by
    unfold standingCompetitors
    rw [h.competitors]
  unfold shown standingUsers at hshown ⊢
  by_cases hall : includeAll = true
  · simp only [if_pos hall, mem_unionBy_keys, hcompetitors] at hshown ⊢
    simp only [List.mem_map, Rows.mem_authors] at hshown ⊢
    constructor
    · rintro (hu | ⟨user, ⟨hhidden, hauthor⟩, rfl⟩)
      · exact Or.inl hu
      · rcases author_adds now notFreeze startTime h hauthor with rfl | hauthor
        · exact hshown
        · exact Or.inr ⟨user, ⟨hhidden, hauthor⟩, rfl⟩
    · rintro (hu | ⟨user, ⟨hhidden, hauthor⟩, rfl⟩)
      · exact Or.inl hu
      · exact Or.inr ⟨user, ⟨hhidden, author_stays now notFreeze startTime h hauthor⟩, rfl⟩
  · simp only [if_neg hall, hcompetitors]

/-- Where no cell of a user changes, neither do the totals. -/
theorem rowOf_noBetter (hschool : c.isSchool culture = true) (h : Adds added c c') (hid : user'.id = user.id)
    (hscored : ∀ p ∈ c.problems, ScoredFor now notFreeze startTime c added user p)
    (hworse : ∀ p ∈ c.problems, NoBetter now notFreeze startTime c added user p) :
    (Rows.rowOf culture ms now includeAll official notFreeze startTime c' user').map
        (fun row => (row.score, row.summaryTime)) =
      (Rows.rowOf culture ms now includeAll official notFreeze startTime c user).map
        fun row => (row.score, row.summaryTime) := by
  have hcost : penaltyOf culture c = 0 := by simp [penaltyOf, hschool]
  have hcost' : penaltyOf culture c' = 0 := by
    rw [← hcost]
    unfold penaltyOf Contest.isSchool
    rw [h.abbr]
  have hsame := (forall₂_mem (standingProblems_adds h)).imp fun p p' hp =>
    cellOf_noBetter ms now notFreeze startTime h hp.2.2 (mem_orderBy.mp hp.1) (mem_orderBy.mp hp.2.1) hid
      (hscored p (mem_orderBy.mp hp.1)) (hworse p (mem_orderBy.mp hp.1)) (contestStart c startTime)
  rw [rowOf_totals, rowOf_totals, hcost, hcost', start_adds startTime h]
  congr 1
  · exact map_eq_of_forall₂ (hsame.flip.imp fun _ _ hp => hp.1)
  · exact map_eq_of_forall₂ (hsame.flip.imp fun _ _ hp => hp.2)

theorem rowOf_score {row : UserResult}
    (h : Rows.rowOf culture ms now includeAll official notFreeze startTime c user = .ok row) :
    row.score = ((standingProblems c).map fun p => (cellOf now c notFreeze startTime user p).score).sum := by
  have htotals := rowOf_totals culture ms now (c := c) includeAll official notFreeze startTime user
  rw [h] at htotals
  unfold totals at htotals
  split at htotals
  · cases htotals
  · next score hscore =>
    cases ht : ms.fromMilliseconds (ms.sum ((standingProblems c).map fun p =>
        (cellOf now c notFreeze startTime user p).summaryTime ms (contestStart c startTime) (penaltyOf culture c))) with
    | error e => rw [ht] at htotals; cases htotals
    | ok time =>
      rw [ht] at htotals
      have hpair : row.score = score := congrArg Prod.fst (Except.ok.inj htotals)
      rw [hpair]
      exact checkedSum_eq hscore

theorem rowOf_grows (h : Adds added c c') (hid : user'.id = user.id)
    (hscored : ∀ p ∈ c.problems, ScoredFor now notFreeze startTime c added user p) {row row' : UserResult}
    (hrow : Rows.rowOf culture ms now includeAll official notFreeze startTime c user = .ok row)
    (hrow' : Rows.rowOf culture ms now includeAll official notFreeze startTime c' user' = .ok row') :
    row.score ≤ row'.score := by
  rw [rowOf_score culture ms now includeAll official notFreeze startTime hrow,
    rowOf_score culture ms now includeAll official notFreeze startTime hrow']
  refine List.Forall₂.sum_le_sum (List.forall₂_map_left_iff.mpr (List.forall₂_map_right_iff.mpr ?_))
  refine (forall₂_mem (standingProblems_adds h)).imp fun p p' hp => ?_
  exact cellOf_grows now notFreeze startTime h hp.2.2 (mem_orderBy.mp hp.1) (mem_orderBy.mp hp.2.1) hid
    (hscored p (mem_orderBy.mp hp.1))

/-- There are rows when each user who is shown has one. -/
theorem rows_exist (h : ∀ user ∈ shown now includeAll official notFreeze startTime c, ∃ row,
      Rows.rowOf culture ms now includeAll official notFreeze startTime c user = .ok row) :
    ∃ rows, newStanding culture ms now c includeAll official notFreeze startTime = .ok rows := by
  rw [Rows.newStanding_eq]
  cases hm : (shown now includeAll official notFreeze startTime c).mapM
      (Rows.rowOf culture ms now includeAll official notFreeze startTime c) with
  | ok rows => exact ⟨_, rfl⟩
  | error e =>
    obtain ⟨user, hmem, hfail⟩ := mapM_eq_error hm
    obtain ⟨row, hrow⟩ := h user hmem
    rw [hfail] at hrow
    cases hrow

theorem rowOf_shown {rows : List UserResult}
    (h : newStanding culture ms now c includeAll official notFreeze startTime = .ok rows)
    (hmem : user ∈ shown now includeAll official notFreeze startTime c) :
    ∃ row ∈ rows, row.user = user ∧ Rows.rowOf culture ms now includeAll official notFreeze startTime c user =
      .ok row := by
  obtain ⟨unsorted, hrows, rfl⟩ := Rows.newStanding_rows culture ms now includeAll official notFreeze startTime h
  obtain ⟨row, hrow, hof⟩ := (forall₂_exists hrows).1 user hmem
  exact ⟨row, mem_orderBy.mpr hrow, (Rows.rowOf_ok culture ms now includeAll official notFreeze startTime hof).user,
    hof⟩

/-- The one user and problem whose attempts grow. -/
theorem adds_attempts {user₀ : User} {p₀ : Problem} (hmem₀ : p₀ ∈ c.problems) (huser : added.userId = user₀.id)
    (hto : added.problemId = p₀.id) (hmem : p ∈ c.problems)
    (hadds : AddsTo now notFreeze startTime c added user.id p.id) :
    attempts now c notFreeze startTime user p = attempts now c notFreeze startTime user₀ p₀ := by
  obtain ⟨-, hu, hp⟩ := hadds
  obtain rfl := FirstSuccess.problem_unique hmem hmem₀ (hp.symm.trans hto)
  unfold attempts
  rw [← hu, huser]

/-! ## The rule -/

/-- The row of the same user, with the same totals and the same score and time for the problem. -/
structure SameScore (start cost : Int) (row : UserResult) (cell : UserProblemResult) (row' : UserResult) : Prop where
  user : row'.user.id = row.user.id
  score : row'.score = row.score
  summaryTime : row'.summaryTime = row.summaryTime
  cell : ∃ cell' ∈ row'.problemResults, cell'.problem.id = cell.problem.id ∧ cell'.score = cell.score ∧
    cell'.summaryTime ms start cost = cell.summaryTime ms start cost

/-- What adding the submission to the cell's problem does to the row of its author. -/
structure Grows (row : UserResult) (cell : UserProblemResult) (row' : UserResult) : Prop where
  score : row.score ≤ row'.score
  cell : ∀ cell' ∈ row'.problemResults, cell'.problem.id = cell.problem.id → cell.score ≤ cell'.score

/-- The cell for a problem is in the row. -/
theorem cell_mem {row : UserResult}
    (h : Rows.rowOf culture ms now includeAll official notFreeze startTime c user = .ok row) (hmem : p ∈ c.problems) :
    ∃ first, userProblemResult p (cellSubmissions now c notFreeze (contestStart c startTime) user.id p) first ∈
      row.problemResults := by
  rw [(Rows.rowOf_cells culture ms now includeAll official notFreeze startTime h).2]
  exact ⟨_, List.mem_map.mpr ⟨p, mem_orderBy.mpr hmem, rfl⟩⟩

/-- A submission that beats nobody's best leaves every row where it was. -/
theorem rows_noBetter (hschool : c.isSchool culture = true) (h : Adds added c c')
    (hids : ∀ id, id ∈ (shown now includeAll official notFreeze startTime c').map User.id →
      id ∈ (shown now includeAll official notFreeze startTime c).map User.id)
    (hscored : ∀ user, ∀ p ∈ c.problems, ScoredFor now notFreeze startTime c added user p)
    (hworse : ∀ user, ∀ p ∈ c.problems, NoBetter now notFreeze startTime c added user p) {rows : List UserResult}
    (hrows : newStanding culture ms now c includeAll official notFreeze startTime = .ok rows) :
    ∃ rows', newStanding culture ms now c' includeAll official notFreeze startTime = .ok rows' := by
  refine rows_exist culture ms now includeAll official notFreeze startTime fun user' hmem' => ?_
  obtain ⟨user, hmem, hid⟩ := List.mem_map.mp (hids user'.id (List.mem_map_of_mem hmem'))
  obtain ⟨row, -, -, hof⟩ := rowOf_shown culture ms now includeAll official notFreeze startTime hrows hmem
  have htotals := rowOf_noBetter culture ms now includeAll official notFreeze startTime hschool h hid.symm
    (hscored user) (hworse user)
  rw [hof] at htotals
  cases hof' : Rows.rowOf culture ms now includeAll official notFreeze startTime c' user' with
  | error e => rw [hof'] at htotals; cases htotals
  | ok row' => exact ⟨row', rfl⟩

theorem row_noBetter (hschool : c.isSchool culture = true) (h : Adds added c c') {row row' : UserResult}
    (hid : row'.user.id = row.user.id)
    (hscored : ∀ p ∈ c.problems, ScoredFor now notFreeze startTime c added row.user p)
    (hworse : ∀ p ∈ c.problems, NoBetter now notFreeze startTime c added row.user p)
    (hof : Rows.rowOf culture ms now includeAll official notFreeze startTime c row.user = .ok row)
    (hof' : Rows.rowOf culture ms now includeAll official notFreeze startTime c' row'.user = .ok row')
    (hmem : p ∈ c.problems) (first : Bool) :
    SameScore ms (contestStart c startTime) (penaltyOf culture c) row (userProblemResult p
      (cellSubmissions now c notFreeze (contestStart c startTime) row.user.id p) first) row' := by
  have hcost : penaltyOf culture c = 0 := by simp [penaltyOf, hschool]
  have htotals := rowOf_noBetter culture ms now includeAll official notFreeze startTime hschool h hid hscored hworse
  rw [hof, hof'] at htotals
  have hpair := Except.ok.inj htotals
  obtain ⟨p', hmem', hextends⟩ := (forall₂_exists h.problems).1 p hmem
  obtain ⟨first', hcell'⟩ := cell_mem culture ms now includeAll official notFreeze startTime hof' hmem'
  obtain ⟨hscore, htime⟩ := cellOf_noBetter ms now notFreeze startTime h hextends hmem hmem' hid
    (hscored p hmem) (hworse p hmem) (contestStart c startTime)
  refine ⟨hid, congrArg Prod.fst hpair, congrArg Prod.snd hpair, _, hcell', hextends.id, hscore, ?_⟩
  rw [hcost]
  exact htime

theorem row_grows (h : Adds added c c') {row row' : UserResult} (hid : row'.user.id = row.user.id)
    (hscored : ∀ p ∈ c.problems, ScoredFor now notFreeze startTime c added row.user p)
    (hof : Rows.rowOf culture ms now includeAll official notFreeze startTime c row.user = .ok row)
    (hof' : Rows.rowOf culture ms now includeAll official notFreeze startTime c' row'.user = .ok row')
    (hmem : p ∈ c.problems) (first : Bool) :
    Grows row (userProblemResult p (cellSubmissions now c notFreeze (contestStart c startTime) row.user.id p) first)
      row' := by
  refine ⟨rowOf_grows culture ms now includeAll official notFreeze startTime h hid hscored hof hof', ?_⟩
  intro cell' hcell' hsame
  obtain ⟨-, p', hmem', first', rfl⟩ :=
    Rows.cell_of_rowOf culture ms now includeAll official notFreeze startTime hof' hcell'
  obtain ⟨p₀, hmem₀, hextends⟩ := (forall₂_exists h.problems).2 p' hmem'
  obtain rfl := FirstSuccess.problem_unique hmem₀ hmem (hextends.id.symm.trans hsame)
  exact cellOf_grows now notFreeze startTime h hextends hmem₀ hmem' hid (hscored p₀ hmem₀)

/-- The rows and cells of a school contest, with all flags and start times. -/
theorem school_scoring (hschool : c.isSchool culture = true) {rows : List UserResult}
    (hrows : newStanding culture ms now c includeAll official notFreeze startTime = .ok rows)
    {row : UserResult} (hrow : row ∈ rows) {cell : UserProblemResult} (hcell : cell ∈ row.problemResults)
    (hscored : ∀ s ∈ attempts now c notFreeze startTime row.user cell.problem, SchoolScored s) :
    ShowsBest ms (attempts now c notFreeze startTime row.user cell.problem) (contestStart c startTime)
      (penaltyOf culture c) cell ∧
    ms.fromMilliseconds (ms.sum (row.problemResults.map
      (·.summaryTime ms (contestStart c startTime) (penaltyOf culture c)))) = .ok row.summaryTime ∧
    ∀ added c', Adds added c c' → added.userId = row.user.id → added.problemId = cell.problem.id →
      (counts now c notFreeze startTime added = true → SchoolScored added) →
      (∀ best time, Best (attempts now c notFreeze startTime row.user cell.problem) best time →
        (∀ n, added.score = some n → n ≤ best) → time ≤ added.commitTime →
        ∃ rows', newStanding culture ms now c' includeAll official notFreeze startTime = .ok rows' ∧
          (∃ row' ∈ rows', row'.user.id = row.user.id) ∧ ∀ row' ∈ rows', row'.user.id = row.user.id →
            SameScore ms (contestStart c startTime) (penaltyOf culture c) row cell row') ∧
      ∀ rows', newStanding culture ms now c' includeAll official notFreeze startTime = .ok rows' →
        ∀ row' ∈ rows', row'.user.id = row.user.id → Grows row cell row' := by
  have hcost : penaltyOf culture c = 0 := by simp [penaltyOf, hschool]
  obtain ⟨hshown, hof⟩ := Rows.mem_rows culture ms now includeAll official notFreeze startTime hrows hrow
  obtain ⟨problem, hproblem, first, rfl⟩ :=
    Rows.cell_of_row culture ms now includeAll official notFreeze startTime hrows hrow hcell
  refine ⟨?_, (Rows.rowOf_ok culture ms now includeAll official notFreeze startTime hof).summaryTime, ?_⟩
  · rw [hcost]
    exact shows_best ms now notFreeze startTime hproblem first hscored _
  intro added c' hadds huser hto hadded
  -- whose attempts grow has those of the cell
  have hscoredFor : ∀ user, ∀ p ∈ c.problems, ScoredFor now notFreeze startTime c added user p := by
    intro user p hp hgrows
    rw [adds_attempts now notFreeze startTime hproblem huser hto hp hgrows]
    exact ⟨hscored, hadded hgrows.1⟩
  constructor
  · intro best time hbest hle hlater
    have hworse : ∀ user, ∀ p ∈ c.problems, NoBetter now notFreeze startTime c added user p := by
      intro user p hp hgrows
      rw [adds_attempts now notFreeze startTime hproblem huser hto hp hgrows]
      exact ⟨best, time, hbest, hle, hlater⟩
    have hids : ∀ id, id ∈ (shown now includeAll official notFreeze startTime c').map User.id ↔
        id ∈ (shown now includeAll official notFreeze startTime c).map User.id := by
      intro id
      refine shown_adds now includeAll official notFreeze startTime hadds ?_
      rw [huser]
      exact List.mem_map_of_mem hshown
    obtain ⟨rows', hrows'⟩ := rows_noBetter culture ms now includeAll official notFreeze startTime hschool hadds
      (fun id => (hids id).mp) hscoredFor hworse hrows
    refine ⟨rows', hrows', ?_, fun row' hrow' hid => ?_⟩
    · obtain ⟨user', hmem', hid'⟩ := List.mem_map.mp ((hids row.user.id).mpr (List.mem_map_of_mem hshown))
      obtain ⟨row', hrow', rfl, -⟩ := rowOf_shown culture ms now includeAll official notFreeze startTime hrows' hmem'
      exact ⟨row', hrow', hid'⟩
    · exact row_noBetter culture ms now includeAll official notFreeze startTime hschool hadds hid (hscoredFor row.user)
        (hworse row.user) hof (Rows.mem_rows culture ms now includeAll official notFreeze startTime hrows' hrow').2
        hproblem first
  · intro rows' hrows' row' hrow' hid
    exact row_grows culture ms now includeAll official notFreeze startTime hadds hid (hscoredFor row.user) hof
      (Rows.mem_rows culture ms now includeAll official notFreeze startTime hrows' hrow').2 hproblem first

end Contests

def sampleSchool : Contest where
  abbr := "school-test"
  startTime := 0
  endTime := 300 * ticksPerMinute
  freezeTime := none
  problems := [⟨1, 1, [⟨1, -1002, false, 10 * ticksPerMinute, some 20, IcpcRules.sampleUser, 1⟩,
    ⟨2, -1002, false, 30 * ticksPerMinute, some 60, IcpcRules.sampleUser, 1⟩,
    ⟨3, -1002, false, 20 * ticksPerMinute, some 60, IcpcRules.sampleUser, 1⟩,
    ⟨4, -1002, false, 40 * ticksPerMinute, some 40, IcpcRules.sampleUser, 1⟩], by decide⟩]
  competitors := [⟨IcpcRules.sampleUser, ⟨true, false⟩, IcpcRules.sampleUser_competes⟩]
  problem_ids := by decide
  problem_count := by decide

theorem sampleSchool_scored {problem : Problem} (hp : problem ∈ sampleSchool.problems) (user : User) :
    ∀ s ∈ attempts 0 sampleSchool false none user problem, SchoolScored s := by
  intro s hs
  rw [List.mem_singleton.mp hp] at hs
  have hmem := (List.mem_filter.mp hs).1
  simp only [List.mem_cons, List.not_mem_nil, or_false] at hmem
  rcases hmem with rfl | rfl | rfl | rfl
  all_goals exact ⟨by decide, fun _ => ⟨_, rfl, by decide⟩⟩

theorem sample_school : ∃ rows, newStanding .ordinal .exact 0 sampleSchool true false false none = .ok rows ∧
    rows.length = 1 ∧ ∀ row ∈ rows, ∀ cell ∈ row.problemResults,
      ShowsBest .exact (attempts 0 sampleSchool false none row.user cell.problem) 0 0 cell := by
  obtain ⟨rows, hrows, hlength⟩ : ∃ rows, newStanding .ordinal .exact 0 sampleSchool true false false none = .ok rows ∧
      rows.length = 1 := ⟨_, rfl, rfl⟩
  refine ⟨rows, hrows, hlength, ?_⟩
  intro row hrow cell hcell
  obtain ⟨problem, hp, first, rfl⟩ := Rows.cell_of_row .ordinal .exact 0 true false false none hrows hrow hcell
  exact (school_scoring .ordinal .exact 0 true false false none (by decide) hrows hrow hcell
    (sampleSchool_scored hp row.user)).1

example : (newStanding .ordinal .exact 0 sampleSchool true false false none).map
    (List.map fun row => (row.score, row.summaryTime)) = .ok [(60, 20 * ticksPerMinute)] := by decide +kernel

end OlympSystem.Domain.SchoolScoring
