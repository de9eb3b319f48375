/-
  OlympSystem.Domain.DataCut — which attempts `StandingData` lists without a freeze.

  An attempt is wanted up to the user's earliest success for the problem. The cut is made
  at the first success in the order of the collections, before the attempts are sorted.

  Proved:
  - `isListed_eq`: where the first success of each group is an earliest one, what is listed
    is what is wanted.
  - `first_listed`: otherwise that first success is listed though it is too late.
  - `firstEarliest_of_sorted`: collections in the order of time are cut rightly.
  - `dataCut_law`: the attempts up to the success are listed exactly if the first success of
    each group is an earliest one; two orders cut rightly list the same.
-/

import OlympSystem.Domain.CollectionOrder
import OlympSystem.Domain.StandingData

namespace OlympSystem.Domain.DataCut

open Lib.Query StandingData CollectionOrder

/-! ## The attempts that are wanted -/

def isAccepted (attempt : Attempt) : Bool := attempt.submission.statusCode == 2

section Wanted

variable (clock : DataClock) (contest : Contest) (request : DataRequest)

/-- The attempt is not later than any success of its user for its problem. -/
def upToEarliest (attempt : Attempt) : Bool :=
  (groupOf clock contest request (attemptKey attempt)).all fun other =>
    !isAccepted other ||
      decide (intTime clock contest request attempt.submission ≤ intTime clock contest request other.submission)

/-- Of each user and problem the payload lists the attempts up to the earliest success, all
    if there is none, sorted by time. -/
structure ListsUpToSuccess (texts : Texts) : Prop where
  sorted : (standingData clock texts contest request).submits.Pairwise fun a b => a.time ≤ b.time
  listed : ∀ user problem,
    ((standingData clock texts contest request).submits.filter fun info =>
      decide (groupKey info = (user, problem))).Perm
      (((groupOf clock contest request (user, problem)).filter (upToEarliest clock contest request)).map
        (submitInfo clock contest request))

/-- The first success of each group, in the order of the collections, is an earliest one. -/
def FirstEarliest : Prop :=
  ∀ key first, (groupOf clock contest request key).find? isAccepted = some first →
    ∀ other ∈ groupOf clock contest request key, isAccepted other = true →
      intTime clock contest request first.submission ≤ intTime clock contest request other.submission

end Wanted

section Cut

variable {clock : DataClock} {contest : Contest} {request : DataRequest}

theorem result_open (hopen : (request.freeze && contest.isFreeze clock.now) = false) (attempt : Attempt) :
    (result clock contest request attempt.submission == 1) = isAccepted attempt := by
  have hreal : result clock contest request attempt.submission =
      if attempt.submission.statusCode = 2 then 1 else 0 := by
    unfold result
    cases hfreeze : request.freeze with
    | false => rfl
    | true =>
      rw [hfreeze, Bool.true_and] at hopen
      rw [hopen]
      rfl
  rw [hreal]
  unfold isAccepted
  by_cases hcode : attempt.submission.statusCode = 2
  · rw [if_pos hcode, hcode]
    rfl
  · rw [if_neg hcode, beq_eq_false_iff_ne.mpr hcode]
    rfl

theorem isListed_open (hopen : (request.freeze && contest.isFreeze clock.now) = false) (attempt : Attempt) :
    isListed clock contest request attempt =
      ((groupOf clock contest request (attemptKey attempt)).find? isAccepted).all fun fs =>
        decide (intTime clock contest request attempt.submission ≤ intTime clock contest request fs.submission) := by
  have hp : (fun other : Attempt => result clock contest request other.submission == 1) = isAccepted :=
    funext fun other => result_open hopen other
  unfold isListed
  rw [hp]

/-- A cut at an earliest success lists what is wanted. -/
theorem isListed_eq (hopen : (request.freeze && contest.isFreeze clock.now) = false)
    (h : FirstEarliest clock contest request) (attempt : Attempt) :
    isListed clock contest request attempt = upToEarliest clock contest request attempt := by
  rw [isListed_open hopen, Bool.eq_iff_iff]
  unfold upToEarliest
  cases hfind : (groupOf clock contest request (attemptKey attempt)).find? isAccepted with
  | none =>
    rw [Option.all_none, List.all_eq_true]
    refine ⟨fun _ other hother => ?_, fun _ => rfl⟩
    have hnot := List.find?_eq_none.mp hfind other hother
    rw [Bool.not_eq_true] at hnot
    rw [hnot]
    rfl
  | some first =>
    rw [Option.all_some, decide_eq_true_eq, List.all_eq_true]
    constructor
    · intro hle other hother
      cases haccepted : isAccepted other with
      | false => rfl
      | true =>
        have hearliest := h _ first hfind other hother haccepted
        rw [Bool.not_true, Bool.false_or]
        exact decide_eq_true (by omega)
    · intro hall
      have hfirst := hall first (List.mem_of_find?_eq_some hfind)
      have haccepted : isAccepted first = true := List.find?_some hfind
      rw [haccepted, Bool.not_true, Bool.false_or] at hfirst
      exact of_decide_eq_true hfirst

theorem submits_wanted (hopen : (request.freeze && contest.isFreeze clock.now) = false)
    (h : FirstEarliest clock contest request) :
    (submits (submissions clock contest request)).Perm
      (((visible clock contest request).filter (upToEarliest clock contest request)).map
        (submitInfo clock contest request)) := by
  refine (submits_perm clock contest request).trans (.of_eq ?_)
  congr 1
  exact List.filter_congr fun attempt _ => isListed_eq hopen h attempt

theorem submits_sorted : (submits (submissions clock contest request)).Pairwise fun a b => a.time ≤ b.time := by
  have hsorted := orderBy_sorted (byKey_totalPreorder SubmitInfo.time)
    ((groupBy groupKey (submissions clock contest request)).flatMap fun group => upToSuccess group.2)
  exact hsorted.imp fun hle => of_decide_eq_true hle

/-- The rows of one group among those of some attempts. -/
theorem filter_group (key : Int × Int) (p : Attempt → Bool) :
    (((visible clock contest request).filter p).map (submitInfo clock contest request)).filter
        (fun info => decide (groupKey info = key)) =
      ((groupOf clock contest request key).filter p).map (submitInfo clock contest request) := by
  rw [List.filter_map, List.filter_filter]
  unfold groupOf
  rw [List.filter_filter]
  congr 1
  exact List.filter_congr fun attempt _ => Bool.and_comm _ _

theorem lists_of_firstEarliest (texts : Texts) (hopen : (request.freeze && contest.isFreeze clock.now) = false)
    (h : FirstEarliest clock contest request) : ListsUpToSuccess clock contest request texts := by
  refine ⟨submits_sorted, fun user problem => ?_⟩
  rw [← filter_group (user, problem)]
  exact (submits_wanted hopen h).filter _

/-- The first success of a group is listed. -/
theorem first_listed (hopen : (request.freeze && contest.isFreeze clock.now) = false)
    {key : Int × Int} {first : Attempt} (hfirst : (groupOf clock contest request key).find? isAccepted = some first) :
    submitInfo clock contest request first ∈ submits (submissions clock contest request) ∧
      groupKey (submitInfo clock contest request first) = key := by
  obtain ⟨hvisible, hkey⟩ := List.mem_filter.mp (List.mem_of_find?_eq_some hfirst)
  have hkey : attemptKey first = key := of_decide_eq_true hkey
  refine ⟨(mem_submits clock contest request).mpr ⟨first, hvisible, ?_, rfl⟩, hkey⟩
  rw [isListed_open hopen, hkey, hfirst, Option.all_some]
  exact decide_eq_true (le_refl _)

theorem firstEarliest_of_lists {texts : Texts} (hopen : (request.freeze && contest.isFreeze clock.now) = false)
    (h : ListsUpToSuccess clock contest request texts) : FirstEarliest clock contest request := by
  intro key first hfirst other hother haccepted
  obtain ⟨hmem, hkey⟩ := first_listed hopen hfirst
  have hin := (h.listed key.1 key.2).subset (List.mem_filter.mpr ⟨hmem, decide_eq_true hkey⟩)
  obtain ⟨attempt, hattempt, heq⟩ := List.mem_map.mp hin
  obtain ⟨hgroup, hwanted⟩ := List.mem_filter.mp hattempt
  have hattemptKey : attemptKey attempt = key := of_decide_eq_true (List.mem_filter.mp hgroup).2
  -- the attempt shown in the first success's row is not later than any success
  unfold upToEarliest at hwanted
  rw [hattemptKey] at hwanted
  have hle := List.all_eq_true.mp hwanted other hother
  rw [haccepted, Bool.not_true, Bool.false_or] at hle
  have htime : intTime clock contest request attempt.submission = intTime clock contest request first.submission :=
    congrArg SubmitInfo.time heq
  rw [← htime]
  exact of_decide_eq_true hle

theorem lists_iff (texts : Texts) (hopen : (request.freeze && contest.isFreeze clock.now) = false) :
    ListsUpToSuccess clock contest request texts ↔ FirstEarliest clock contest request :=
  ⟨firstEarliest_of_lists hopen, lists_of_firstEarliest texts hopen⟩

/-- In collections that are in the order of time the first success is an earliest one. -/
theorem firstEarliest_of_sorted (h : (visible clock contest request).Pairwise fun a b =>
    intTime clock contest request a.submission ≤ intTime clock contest request b.submission) :
    FirstEarliest clock contest request := by
  intro key first hfirst other hother haccepted
  have hgroup := h.sublist (List.filter_sublist (p := fun attempt => decide (attemptKey attempt = key)))
  obtain ⟨-, before, after, hsplit, hnone⟩ := List.find?_eq_some_iff_append.mp hfirst
  have hsplit : (visible clock contest request).filter (fun attempt => decide (attemptKey attempt = key)) =
      before ++ first :: after := hsplit
  rw [hsplit] at hgroup
  have hother : other ∈ before ++ first :: after := hsplit ▸ hother
  rcases List.mem_append.mp hother with hbefore | hafter
  · have hnot := hnone other hbefore
    rw [haccepted] at hnot
    cases hnot
  · rcases List.mem_cons.mp hafter with hsame | hlater
    · rw [hsame]
    · exact (List.pairwise_cons.mp (List.pairwise_append.mp hgroup).2.1).1 other hlater

end Cut

/-! ## Other orders of the collections -/

section Reordered

variable {clock : DataClock} {c c' : Contest} {request : DataRequest}

theorem attempts_reordered (h : Reordered c c') : (attempts c').Perm (attempts c) := by
  obtain ⟨problems, hsame, hperm⟩ := h.problems
  have hproblems : ∀ {l l' : List Problem}, List.Forall₂ SameProblem l l' →
      (l'.flatMap fun problem => problem.submissions.map fun s => (⟨problem.number, s⟩ : Attempt)).Perm
        (l.flatMap fun problem => problem.submissions.map fun s => ⟨problem.number, s⟩) := by
    intro l l' hforall
    induction hforall with
    | nil => exact List.Perm.refl _
    | cons hone _ ih =>
      rw [List.flatMap_cons, List.flatMap_cons, hone.number]
      exact (hone.submissions.map _).append ih
  exact (hperm.symm.flatMap_right _).trans (hproblems hsame)

theorem intTime_reordered (h : Reordered c c') : intTime clock c' request = intTime clock c request := by
  funext s
  unfold intTime elapsed
  rw [h.startTime]

theorem isVisible_reordered (h : Reordered c c') : isVisible clock c' request = isVisible clock c request := by
  have hduration : c'.duration = c.duration := by
    unfold Contest.duration
    rw [h.startTime, h.endTime]
  funext attempt
  unfold isVisible currentTime
  rw [intTime_reordered h, hduration, h.startTime]
  unfold elapsed
  rw [h.startTime]

theorem groupOf_reordered (h : Reordered c c') (key : Int × Int) :
    (groupOf clock c' request key).Perm (groupOf clock c request key) := by
  unfold groupOf visible
  rw [isVisible_reordered h]
  exact ((attempts_reordered h).filter _).filter _

theorem upToEarliest_reordered (h : Reordered c c') : upToEarliest clock c' request = upToEarliest clock c request := by
  funext attempt
  rw [Bool.eq_iff_iff]
  unfold upToEarliest
  rw [List.all_eq_true, List.all_eq_true, intTime_reordered h]
  exact ⟨fun hall other hother => hall other ((groupOf_reordered h _).mem_iff.mpr hother),
    fun hall other hother => hall other ((groupOf_reordered h _).mem_iff.mp hother)⟩

theorem isFreeze_reordered (h : Reordered c c') : c'.isFreeze clock.now = c.isFreeze clock.now := by
  unfold Contest.isFreeze
  rw [h.freezeTime]

/-- What is shown of an attempt without a freeze. -/
theorem submitInfo_reordered (hopen : (request.freeze && c.isFreeze clock.now) = false) (h : Reordered c c')
    (attempt : Attempt) : submitInfo clock c' request attempt = submitInfo clock c request attempt := by
  have hresult : result clock c' request attempt.submission = result clock c request attempt.submission := by
    unfold result
    rw [isFreeze_reordered h]
    cases hfreeze : request.freeze with
    | false => rfl
    | true =>
      rw [hfreeze, Bool.true_and] at hopen
      rw [hopen]
      rfl
  unfold submitInfo
  rw [hresult, intTime_reordered h]

theorem submits_reordered (hopen : (request.freeze && c.isFreeze clock.now) = false) (h : Reordered c c')
    (hfirst : FirstEarliest clock c request) (hfirst' : FirstEarliest clock c' request) :
    (submits (submissions clock c' request)).Perm (submits (submissions clock c request)) := by
  have hopen' : (request.freeze && c'.isFreeze clock.now) = false := by rw [isFreeze_reordered h]; exact hopen
  refine (submits_wanted hopen' hfirst').trans (.trans ?_ (submits_wanted hopen hfirst).symm)
  unfold visible
  rw [isVisible_reordered h, upToEarliest_reordered h]
  refine ((((attempts_reordered h).filter _).filter _).map _).trans (.of_eq ?_)
  exact List.map_congr_left fun attempt _ => submitInfo_reordered hopen h attempt

end Reordered

/-! ## The law -/

theorem dataCut_law (clock : DataClock) (texts : Texts) (contest : Contest) (request : DataRequest)
    (hopen : (request.freeze && contest.isFreeze clock.now) = false) :
    (ListsUpToSuccess clock contest request texts ↔ FirstEarliest clock contest request) ∧
    ∀ other : Contest, Reordered contest other → ListsUpToSuccess clock contest request texts →
      ListsUpToSuccess clock other request texts →
      (standingData clock texts other request).submits.Perm (standingData clock texts contest request).submits := by
  refine ⟨lists_iff texts hopen, fun other h hlists hother => ?_⟩
  have hopen' : (request.freeze && other.isFreeze clock.now) = false := by rw [isFreeze_reordered h]; exact hopen
  exact submits_reordered hopen h (firstEarliest_of_lists hopen hlists) (firstEarliest_of_lists hopen' hother)

def sampleClock : DataClock := ⟨60 * ticksPerMinute, 0, fun ticks => ticks.tdiv 10000⟩

def sampleTexts : Texts := ⟨"", fun _ => "", fun _ => .ok []⟩

def sampleUser : User := ⟨7, "team", false, false, some ⟨true, false⟩⟩

def sampleSubmission (id status minutes : Int) : Submission :=
  ⟨id, status, false, minutes * ticksPerMinute, none, sampleUser, 1⟩

def sampleContest (submissions : List Submission) (h : ∀ s ∈ submissions, s.problemId = 1) : Contest where
  abbr := "acm"
  startTime := 0
  endTime := 300 * ticksPerMinute
  freezeTime := none
  problems := [⟨1, 1, submissions, h⟩]
  competitors := [⟨sampleUser, ⟨true, false⟩, rfl⟩]
  problem_ids := by simp
  problem_count := by simp [maxCount]

theorem sample_lists : ListsUpToSuccess sampleClock
    (sampleContest [sampleSubmission 1 2 10, sampleSubmission 2 (-1001) 15, sampleSubmission 3 2 20] (by decide))
    ⟨false, none, none⟩ sampleTexts :=
  (dataCut_law _ _ _ _ (by decide)).1.mpr (firstEarliest_of_sorted (by decide))

/-- In the order of the collection the success after twenty minutes is the first one. -/
theorem sample_lists_more : ¬ListsUpToSuccess sampleClock
    (sampleContest [sampleSubmission 3 2 20, sampleSubmission 1 2 10, sampleSubmission 2 (-1001) 15] (by decide))
    ⟨false, none, none⟩ sampleTexts := by
  intro h
  have hlength := (h.listed 7 1).length_eq
  revert hlength
  decide

end OlympSystem.Domain.DataCut
