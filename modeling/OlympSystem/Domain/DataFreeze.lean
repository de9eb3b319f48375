/-
  OlympSystem.Domain.DataFreeze — what `StandingData` shows of a frozen contest.

  `NewStanding` hides what was committed from `FreezeTime` on. `StandingData` compares the
  time elapsed since the start with `TimeOfFreeze`, the time of day of the freeze, so a
  contest that starts at ten shows the results of its first fourteen hours though it is
  frozen at two in the afternoon.

  Proved:
  - `rightly_same`: an attempt judged rightly shows the same, whatever its late verdict.
  - `group_same`: so does a group whose other attempts come after its first telling one.
  - `exposed_settled`: a late attempt that is shown and not cut off tells its verdict.
  - `hides_iff`: the payload hides the late verdicts and shows the early ones exactly if
    each attempt that is judged wrongly is cut off.
-/

import OlympSystem.Domain.StandingData

namespace OlympSystem.Domain.DataFreeze

open Lib.Query StandingData

/-! ## Contests that differ in late verdicts -/

/-- A submission from the moment `f` on without its verdict. -/
def masked (f : Int) (submission : Submission) : Submission :=
  if submission.commitTime < f then submission else { submission with statusCode := 0 }

structure MaskedProblem where
  id : Int
  number : Int
  submissions : List Submission
  deriving DecidableEq, Repr

def maskedProblem (f : Int) (problem : Problem) : MaskedProblem :=
  ⟨problem.id, problem.number, problem.submissions.map (masked f)⟩

/-- Equal but for the verdicts on the submissions from the moment `f`, the freeze, on. -/
structure SameButLate (f : Int) (c c' : Contest) : Prop where
  abbr : c'.abbr = c.abbr
  startTime : c'.startTime = c.startTime
  endTime : c'.endTime = c.endTime
  freezeTime : c.freezeTime = some f ∧ c'.freezeTime = some f
  competitors : c'.competitors = c.competitors
  problems : c'.problems.map (maskedProblem f) = c.problems.map (maskedProblem f)

def maskedAttempt (f : Int) (attempt : Attempt) : Attempt := ⟨attempt.problem, masked f attempt.submission⟩

section Masked

variable {f : Int}

@[simp] theorem masked_id (s : Submission) : (masked f s).id = s.id := by unfold masked; split <;> rfl
@[simp] theorem masked_commitTime (s : Submission) : (masked f s).commitTime = s.commitTime := by
  unfold masked; split <;> rfl
@[simp] theorem masked_isHidden (s : Submission) : (masked f s).isHidden = s.isHidden := by unfold masked; split <;> rfl
@[simp] theorem masked_user (s : Submission) : (masked f s).user = s.user := by unfold masked; split <;> rfl

theorem masked_early {s : Submission} (h : s.commitTime < f) : masked f s = s := if_pos h

theorem attempts_masked (c : Contest) :
    (attempts c).map (maskedAttempt f) =
      (c.problems.map (maskedProblem f)).flatMap fun problem => problem.submissions.map fun s =>
        ⟨problem.number, s⟩ := by
  unfold attempts
  rw [List.map_flatMap, List.flatMap_map]
  apply List.flatMap_congr
  intro problem _
  rw [List.map_map]
  show _ = (problem.submissions.map (masked f)).map _
  rw [List.map_map]
  rfl

theorem attempts_same {c c' : Contest} (h : SameButLate f c c') :
    (attempts c').map (maskedAttempt f) = (attempts c).map (maskedAttempt f) := by
  rw [attempts_masked, attempts_masked, h.problems]

end Masked

/-! ## Attempts that are judged rightly -/

variable (clock : DataClock) (f : Int) (contest : Contest) (request : DataRequest)

def isEarly (submission : Submission) : Bool := decide (submission.commitTime < f)

/-- The verdict is shown exactly if the submission is from before the freeze. -/
def Rightly (attempt : Attempt) : Prop :=
  isShown clock contest request attempt.submission = isEarly f attempt.submission

/-- The verdict is shown, and it is a success or a late one, which may be a success. -/
def isTelling (attempt : Attempt) : Bool :=
  isShown clock contest request attempt.submission &&
    (!isEarly f attempt.submission || attempt.submission.statusCode == 2)

/-- The first telling attempt of the group is from before the freeze, and the attempt is
    after it. -/
def Settled (attempt : Attempt) : Prop :=
  ∃ first, (groupOf clock contest request (attemptKey attempt)).find? (isTelling clock f contest request) = some first ∧
    isEarly f first.submission = true ∧
    intTime clock contest request first.submission < intTime clock contest request attempt.submission

/-- Every attempt in the window is judged rightly, or is cut off. -/
def Sound : Prop :=
  ∀ attempt ∈ visible clock contest request, Rightly clock f contest request attempt ∨
    Settled clock f contest request attempt

section Facts

variable {clock f contest request}

theorem elapsed_masked (s : Submission) : elapsed contest request (masked f s) = elapsed contest request s := by
  unfold elapsed
  rw [masked_user, masked_commitTime]

theorem intTime_masked (s : Submission) :
    intTime clock contest request (masked f s) = intTime clock contest request s := by
  unfold intTime
  rw [elapsed_masked]

theorem isShown_masked (s : Submission) :
    isShown clock contest request (masked f s) = isShown clock contest request s := by
  unfold isShown
  rw [elapsed_masked]

theorem isEarly_masked (s : Submission) : isEarly f (masked f s) = isEarly f s := by
  unfold isEarly
  rw [masked_commitTime]

theorem isVisible_masked (attempt : Attempt) :
    isVisible clock contest request (maskedAttempt f attempt) = isVisible clock contest request attempt := by
  unfold isVisible maskedAttempt
  rw [masked_user, masked_isHidden, elapsed_masked, intTime_masked]

theorem attemptKey_masked (attempt : Attempt) : attemptKey (maskedAttempt f attempt) = attemptKey attempt := by
  unfold attemptKey maskedAttempt Submission.userId
  rw [masked_user]

theorem isTelling_iff {attempt : Attempt} : isTelling clock f contest request attempt = true ↔
    isShown clock contest request attempt.submission = true ∧
      (isEarly f attempt.submission = true → attempt.submission.statusCode = 2) := by
  unfold isTelling
  rw [Bool.and_eq_true, Bool.or_eq_true, Bool.not_eq_true', beq_iff_eq]
  cases isEarly f attempt.submission with
  | false => simp
  | true => simp

theorem isTelling_masked (attempt : Attempt) :
    isTelling clock f contest request (maskedAttempt f attempt) = isTelling clock f contest request attempt := by
  unfold isTelling
  show (isShown clock contest request (masked f attempt.submission) && (!isEarly f (masked f attempt.submission) ||
    (masked f attempt.submission).statusCode == 2)) = _
  rw [isShown_masked, isEarly_masked]
  by_cases hearly : attempt.submission.commitTime < f
  · rw [masked_early hearly]
  · have hlate : isEarly f attempt.submission = false := decide_eq_false hearly
    rw [hlate, Bool.not_false, Bool.true_or, Bool.true_or]

/-- In a frozen contest a result is that of a shown verdict. -/
theorem result_frozen (hfrozen : contest.isFreeze clock.now = true) (hfreeze : request.freeze = true) (s : Submission) :
    result clock contest request s =
      if isShown clock contest request s = true then if s.statusCode = 2 then 1 else 0 else -1 := by
  unfold result
  rw [hfrozen, hfreeze, Bool.not_true, Bool.false_or, Bool.false_or]

theorem success_telling (hfrozen : contest.isFreeze clock.now = true) (hfreeze : request.freeze = true)
    {s : Submission} :
    result clock contest request s = 1 ↔ isShown clock contest request s = true ∧ s.statusCode = 2 := by
  rw [result_frozen hfrozen hfreeze]
  by_cases hshown : isShown clock contest request s = true
  · rw [if_pos hshown]
    by_cases hcode : s.statusCode = 2
    · simp [hshown, hcode]
    · simp [hcode]
  · rw [if_neg hshown]
    simp [hshown]

/-- What is shown of an attempt that is judged rightly does not depend on a late verdict. -/
theorem rightly_same (hfrozen : contest.isFreeze clock.now = true) (hfreeze : request.freeze = true) {attempt : Attempt}
    (h : Rightly clock f contest request attempt) :
    submitInfo clock contest request (maskedAttempt f attempt) = submitInfo clock contest request attempt := by
  by_cases hearly : attempt.submission.commitTime < f
  · have hsame : maskedAttempt f attempt = attempt := by
      unfold maskedAttempt
      rw [masked_early hearly]
    rw [hsame]
  · have hnot : isShown clock contest request attempt.submission = false := h.trans (decide_eq_false hearly)
    have hresult : result clock contest request (masked f attempt.submission) =
        result clock contest request attempt.submission := by
      rw [result_frozen hfrozen hfreeze, result_frozen hfrozen hfreeze, isShown_masked, hnot]
      rfl
    unfold submitInfo maskedAttempt Submission.userId
    rw [hresult, masked_id, masked_user, intTime_masked]

end Facts

/-! ## The two payloads -/

section Schedule

variable {clock f request} {c c' : Contest}

theorem elapsed_same (h : SameButLate f c c') : elapsed c' request = elapsed c request := by
  funext s
  unfold elapsed
  rw [h.startTime]

theorem intTime_same (h : SameButLate f c c') : intTime clock c' request = intTime clock c request := by
  funext s
  unfold intTime
  rw [elapsed_same h]

theorem duration_same (h : SameButLate f c c') : c'.duration = c.duration := by
  unfold Contest.duration
  rw [h.startTime, h.endTime]

theorem isVisible_same (h : SameButLate f c c') : isVisible clock c' request = isVisible clock c request := by
  funext attempt
  unfold isVisible currentTime
  rw [elapsed_same h, intTime_same h, duration_same h, h.startTime]

theorem isShown_same (h : SameButLate f c c') : isShown clock c' request = isShown clock c request := by
  funext s
  unfold isShown timeOfFreeze
  rw [elapsed_same h, h.freezeTime.1, h.freezeTime.2]

theorem isFreeze_same (h : SameButLate f c c') : c'.isFreeze clock.now = c.isFreeze clock.now := by
  unfold Contest.isFreeze
  rw [h.freezeTime.1, h.freezeTime.2]

theorem submitInfo_same (h : SameButLate f c c') : submitInfo clock c' request = submitInfo clock c request := by
  funext attempt
  unfold submitInfo result
  rw [intTime_same h, isFreeze_same h, isShown_same h]

/-- A filter that does not look at late verdicts. -/
theorem filter_masked {p : Attempt → Bool} (hp : ∀ attempt, p (maskedAttempt f attempt) = p attempt)
    (l : List Attempt) :
    (l.filter p).map (maskedAttempt f) = (l.map (maskedAttempt f)).filter p := by
  rw [List.filter_map]
  congr 1
  exact List.filter_congr fun attempt _ => (hp attempt).symm

theorem visible_same (h : SameButLate f c c') :
    (visible clock c' request).map (maskedAttempt f) = (visible clock c request).map (maskedAttempt f) := by
  unfold visible
  rw [isVisible_same h, filter_masked isVisible_masked, filter_masked isVisible_masked, attempts_same h]

theorem group_masked (h : SameButLate f c c') (key : Int × Int) :
    (groupOf clock c' request key).map (maskedAttempt f) = (groupOf clock c request key).map (maskedAttempt f) := by
  have hkey : ∀ attempt, decide (attemptKey (maskedAttempt f attempt) = key) = decide (attemptKey attempt = key) :=
    fun attempt => by rw [attemptKey_masked]
  unfold groupOf
  rw [filter_masked hkey, filter_masked hkey, visible_same h]

theorem keys_same (h : SameButLate f c c') : keys clock c' request = keys clock c request := by
  have hkeys : ∀ c, (visible clock c request).map attemptKey =
      ((visible clock c request).map (maskedAttempt f)).map attemptKey := by
    intro c
    rw [List.map_map]
    exact List.map_congr_left fun attempt _ => (attemptKey_masked attempt).symm
  unfold keys
  rw [groupBy_fst, groupBy_fst, hkeys, hkeys, visible_same h]

end Schedule

/-- The first of the elements with `p` is the first of those with `q`, if it has `q` and `q` is
    the narrower. -/
theorem find?_of_imp {α : Type} {p q : α → Bool} {a : α} : ∀ {l : List α}, l.find? p = some a → q a = true →
    (∀ b ∈ l, q b = true → p b = true) → l.find? q = some a := by
  intro l
  induction l with
  | nil => intro h _ _; cases h
  | cons b l ih =>
    intro h hq himp
    by_cases hp : p b = true
    · rw [List.find?_cons_of_pos hp] at h
      cases h
      exact List.find?_cons_of_pos hq
    · rw [List.find?_cons_of_neg hp] at h
      have hqb : ¬q b = true := fun hqb => hp (himp b List.mem_cons_self hqb)
      rw [List.find?_cons_of_neg hqb]
      exact ih h hq fun c hc => himp c (List.mem_cons_of_mem b hc)

section Groups

variable {clock f contest request}

/-- An early attempt that is the first telling one is the first success. -/
theorem find_success (hfrozen : contest.isFreeze clock.now = true) (hfreeze : request.freeze = true)
    {group : List Attempt} {first : Attempt} (hfirst : group.find? (isTelling clock f contest request) = some first)
    (hearly : isEarly f first.submission = true) :
    group.find? (fun attempt => result clock contest request attempt.submission == 1) = some first := by
  obtain ⟨hshown, hcode⟩ := isTelling_iff.mp (List.find?_some hfirst)
  have hsuccess : (result clock contest request first.submission == 1) = true :=
    beq_iff_eq.mpr ((success_telling hfrozen hfreeze).mpr ⟨hshown, hcode hearly⟩)
  refine find?_of_imp hfirst hsuccess fun attempt _ hresult => ?_
  obtain ⟨hshown, hcode⟩ := (success_telling hfrozen hfreeze).mp (beq_iff_eq.mp hresult)
  exact isTelling_iff.mpr ⟨hshown, fun _ => hcode⟩

/-- A group whose first telling attempt is an early one lists what is not later than it. -/
theorem upToSuccess_telling (hfrozen : contest.isFreeze clock.now = true) (hfreeze : request.freeze = true)
    {group : List Attempt} {first : Attempt} (hfirst : group.find? (isTelling clock f contest request) = some first)
    (hearly : isEarly f first.submission = true) :
    upToSuccess (group.map (submitInfo clock contest request)) =
      (group.filter fun attempt =>
        decide (intTime clock contest request attempt.submission ≤ intTime clock contest request first.submission)).map
          (submitInfo clock contest request) := by
  rw [upToSuccess_map, find_success hfrozen hfreeze hfirst hearly]

theorem map_masked (hfrozen : contest.isFreeze clock.now = true) (hfreeze : request.freeze = true) {l : List Attempt}
    (h : ∀ attempt ∈ l, Rightly clock f contest request attempt) :
    l.map (submitInfo clock contest request) = (l.map (maskedAttempt f)).map (submitInfo clock contest request) := by
  rw [List.map_map]
  exact List.map_congr_left fun attempt hmem => (rightly_same hfrozen hfreeze (h attempt hmem)).symm

theorem rightly_masked {attempt : Attempt} : Rightly clock f contest request (maskedAttempt f attempt) ↔
    Rightly clock f contest request attempt := by
  unfold Rightly maskedAttempt
  rw [isShown_masked, isEarly_masked]

/-- Lists that differ in late verdicts show the same, if one is judged rightly. -/
theorem map_same (hfrozen : contest.isFreeze clock.now = true) (hfreeze : request.freeze = true) {l l' : List Attempt}
    (hsame : l'.map (maskedAttempt f) = l.map (maskedAttempt f))
    (h : ∀ attempt ∈ l, Rightly clock f contest request attempt) :
    l'.map (submitInfo clock contest request) = l.map (submitInfo clock contest request) := by
  have h' : ∀ attempt ∈ l', Rightly clock f contest request attempt := by
    intro attempt hmem
    have hmasked : maskedAttempt f attempt ∈ l.map (maskedAttempt f) := hsame ▸ List.mem_map_of_mem hmem
    obtain ⟨other, hother, heq⟩ := List.mem_map.mp hmasked
    rw [← rightly_masked, ← heq, rightly_masked]
    exact h other hother
  rw [map_masked hfrozen hfreeze h, map_masked hfrozen hfreeze h', hsame]

/-- Groups that are masked alike have the same first telling attempt, if it is early in one. -/
theorem telling_same {group group' : List Attempt} (hsame : group'.map (maskedAttempt f) = group.map (maskedAttempt f))
    {first : Attempt} (hfirst : group.find? (isTelling clock f contest request) = some first)
    (hearly : isEarly f first.submission = true) : group'.find? (isTelling clock f contest request) = some first := by
  have hmasked : maskedAttempt f first = first := by
    unfold maskedAttempt
    rw [masked_early (of_decide_eq_true hearly)]
  have hfind : ∀ l : List Attempt, (l.map (maskedAttempt f)).find? (isTelling clock f contest request) =
      (l.find? (isTelling clock f contest request)).map (maskedAttempt f) := by
    intro l
    rw [List.find?_map]
    refine congrArg (Option.map (maskedAttempt f)) ?_
    exact congrArg (fun p => l.find? p) (funext isTelling_masked)
  have hboth := (hfind group').symm.trans ((congrArg _ hsame).trans (hfind group))
  rw [hfirst, Option.map_some, hmasked] at hboth
  obtain ⟨other, hother, heq⟩ := Option.map_eq_some_iff.mp hboth
  have hother' : other.submission.commitTime < f := by
    have hcommit := congrArg (fun attempt : Attempt => attempt.submission.commitTime) heq
    simp only [maskedAttempt, masked_commitTime] at hcommit
    rw [hcommit]
    exact of_decide_eq_true hearly
  unfold maskedAttempt at heq
  rw [masked_early hother'] at heq
  rw [hother, ← heq]

/-- Two groups that differ in late verdicts list the same, if each attempt of the one is
    judged rightly or comes after the group's first telling attempt, an early one. -/
theorem group_same (hfrozen : contest.isFreeze clock.now = true) (hfreeze : request.freeze = true)
    {group group' : List Attempt} (hsame : group'.map (maskedAttempt f) = group.map (maskedAttempt f))
    (h : ∀ attempt ∈ group, Rightly clock f contest request attempt ∨
      ∃ first, group.find? (isTelling clock f contest request) = some first ∧ isEarly f first.submission = true ∧
        intTime clock contest request first.submission < intTime clock contest request attempt.submission) :
    upToSuccess (group'.map (submitInfo clock contest request)) =
      upToSuccess (group.map (submitInfo clock contest request)) := by
  by_cases hall : ∀ attempt ∈ group, Rightly clock f contest request attempt
  · rw [map_same hfrozen hfreeze hsame hall]
  · -- a wrongly judged attempt: the group has an early first telling one, in both lists
    obtain ⟨first, hfirst, hearly, hlater⟩ : ∃ first, group.find? (isTelling clock f contest request) = some first ∧
        isEarly f first.submission = true ∧ ∀ attempt ∈ group, ¬Rightly clock f contest request attempt →
          intTime clock contest request first.submission < intTime clock contest request attempt.submission := by
      simp only [not_forall] at hall
      obtain ⟨wrong, hwrong, hnot⟩ := hall
      obtain ⟨first, hfirst, hearly, _⟩ := (h wrong hwrong).resolve_left hnot
      refine ⟨first, hfirst, hearly, fun attempt hmem hattempt => ?_⟩
      obtain ⟨other, hother, _, hless⟩ := (h attempt hmem).resolve_left hattempt
      rw [hfirst] at hother
      cases hother
      exact hless
    have hfirst' := telling_same hsame hfirst hearly
    rw [upToSuccess_telling hfrozen hfreeze hfirst hearly, upToSuccess_telling hfrozen hfreeze hfirst' hearly]
    have htime : ∀ attempt : Attempt,
        decide (intTime clock contest request (maskedAttempt f attempt).submission ≤
          intTime clock contest request first.submission) =
          decide (intTime clock contest request attempt.submission ≤ intTime clock contest request first.submission) :=
      fun attempt => by rw [maskedAttempt, intTime_masked]
    apply map_same hfrozen hfreeze
    · rw [filter_masked htime, filter_masked htime, hsame]
    · intro attempt hmem
      obtain ⟨hin, hle⟩ := List.mem_filter.mp hmem
      by_cases hright : Rightly clock f contest request attempt
      · exact hright
      · have hless := hlater attempt hin hright
        have hnot := of_decide_eq_true hle
        omega

end Groups

section Payloads

variable {clock f request} {c c' : Contest}

theorem problemsInfo_same (texts : Texts) (h : SameButLate f c c') : problemsInfo texts c' = problemsInfo texts c := by
  have hkey : ∀ p q, byKey MaskedProblem.number (maskedProblem f p) (maskedProblem f q) = byKey Problem.number p q :=
    fun _ _ => rfl
  have hinfo : ∀ c : Contest, problemsInfo texts c = (orderBy (byKey MaskedProblem.number)
      (c.problems.map (maskedProblem f))).map fun problem =>
        ⟨problem.id, problem.number, texts.problemName problem.id⟩ := by
    intro c
    rw [← orderBy_map (maskedProblem f) hkey, List.map_map]
    rfl
  rw [hinfo, hinfo, h.problems]

theorem users_same (h : SameButLate f c c') :
    users c' request (submissions clock c' request) = users c request (submissions clock c request) := by
  have holymp : ∀ c : Contest, (c.problems.flatMap fun problem => problem.submissions.map Submission.user) =
      ((attempts c).map (maskedAttempt f)).map fun attempt => attempt.submission.user := by
    intro c
    rw [List.map_map, attempts, List.map_flatMap]
    refine List.flatMap_congr fun problem _ => ?_
    rw [List.map_map]
    exact List.map_congr_left fun s _ => (masked_user s).symm
  have hjoin : ∀ (user : User) (c : Contest),
      ((groupJoin user.id SubmitInfo.user (submissions clock c request)).map fun _ => user) =
      (((visible clock c request).map (maskedAttempt f)).filter fun attempt =>
        user.id == attempt.submission.userId).map fun _ => user := by
    intro user c
    have hp : ∀ attempt : Attempt, (user.id == (maskedAttempt f attempt).submission.userId) =
        (user.id == attempt.submission.userId) := fun attempt => by
      show (user.id == (masked f attempt.submission).user.id) = _
      rw [masked_user]
      rfl
    rw [← filter_masked hp, List.map_map]
    unfold groupJoin submissions
    rw [List.filter_map, List.map_map]
    rfl
  unfold users
  simp only [holymp, hjoin, attempts_same h, visible_same h, h.competitors]

theorem submits_same (hsound : Sound clock f c request) (hfrozen : c.isFreeze clock.now = true)
    (hfreeze : request.freeze = true) (h : SameButLate f c c') :
    submits (submissions clock c' request) = submits (submissions clock c request) := by
  rw [submits_groups, submits_groups, keys_same h]
  congr 1
  apply List.flatMap_congr
  intro key _
  rw [submitInfo_same h]
  refine group_same hfrozen hfreeze (group_masked h key) fun attempt hmem => ?_
  obtain ⟨hvisible, hkey⟩ := List.mem_filter.mp hmem
  refine (hsound attempt hvisible).imp_right fun hsettled => ?_
  have hkey := of_decide_eq_true hkey
  unfold Settled at hsettled
  rw [hkey] at hsettled
  exact hsettled

theorem standingData_same (texts : Texts) (hsound : Sound clock f c request) (hfrozen : c.isFreeze clock.now = true)
    (hfreeze : request.freeze = true) (h : SameButLate f c c') :
    standingData clock texts c' request = standingData clock texts c request := by
  unfold standingData
  rw [submits_same hsound hfrozen hfreeze h, users_same h, problemsInfo_same texts h, duration_same h, h.startTime]

end Payloads

/-! ## A late verdict that tells -/

def restatus (g : Submission → Int) (submission : Submission) :
    Submission := { submission with statusCode := g submission }

def problemWithVerdicts (g : Submission → Int) (problem : Problem) : Problem where
  id := problem.id
  number := problem.number
  submissions := problem.submissions.map (restatus g)
  submissions_of := by
    intro s hs
    obtain ⟨source, hsource, rfl⟩ := List.mem_map.mp hs
    exact problem.submissions_of source hsource

def withVerdicts (g : Submission → Int) (contest : Contest) : Contest where
  abbr := contest.abbr
  startTime := contest.startTime
  endTime := contest.endTime
  freezeTime := contest.freezeTime
  problems := contest.problems.map (problemWithVerdicts g)
  competitors := contest.competitors
  problem_ids := by
    rw [List.map_map]
    exact contest.problem_ids
  problem_count := by
    rw [List.length_map]
    exact contest.problem_count

def restatusAttempt (g : Submission → Int) (attempt : Attempt) :
    Attempt := ⟨attempt.problem, restatus g attempt.submission⟩

section Verdicts

variable {clock f contest request}

theorem attempts_withVerdicts (g : Submission → Int) :
    attempts (withVerdicts g contest) = (attempts contest).map (restatusAttempt g) := by
  unfold attempts withVerdicts
  rw [List.flatMap_map, List.map_flatMap]
  apply List.flatMap_congr
  intro problem _
  unfold problemWithVerdicts
  rw [List.map_map, List.map_map]
  rfl

theorem sameButLate_withVerdicts {g : Submission → Int} (hf : contest.freezeTime = some f)
    (hg : ∀ s, s.commitTime < f → g s = s.statusCode) : SameButLate f contest (withVerdicts g contest) := by
  refine ⟨rfl, rfl, rfl, ⟨hf, hf⟩, rfl, ?_⟩
  have hmasked : ∀ s : Submission, masked f (restatus g s) = masked f s := by
    intro s
    unfold masked restatus
    by_cases hearly : s.commitTime < f
    · rw [if_pos hearly, if_pos hearly, hg s hearly]
    · rw [if_neg hearly, if_neg hearly]
  unfold withVerdicts
  rw [List.map_map]
  refine List.map_congr_left fun problem _ => ?_
  show MaskedProblem.mk problem.id problem.number ((problem.submissions.map (restatus g)).map (masked f)) = _
  rw [List.map_map]
  exact congrArg (MaskedProblem.mk problem.id problem.number) (List.map_congr_left fun s _ => hmasked s)

theorem visible_withVerdicts (g : Submission → Int) :
    visible clock (withVerdicts g contest) request = (visible clock contest request).map (restatusAttempt g) := by
  unfold visible
  rw [attempts_withVerdicts, List.filter_map]
  rfl

theorem groupOf_withVerdicts (g : Submission → Int) (key : Int × Int) :
    groupOf clock (withVerdicts g contest) request key = (groupOf clock contest request key).map
      (restatusAttempt g) := by
  unfold groupOf
  rw [visible_withVerdicts, List.filter_map]
  rfl

theorem result_withVerdicts (hfrozen : contest.isFreeze clock.now = true) (hfreeze : request.freeze = true)
    (g : Submission → Int) (s : Submission) :
    result clock (withVerdicts g contest) request (restatus g s) =
      if isShown clock contest request s = true then if g s = 2 then 1 else 0 else -1 :=
  result_frozen hfrozen hfreeze (restatus g s)

/-- The attempts of a submission with its id. -/
theorem attempt_unique (hids : ((attempts contest).map fun attempt => attempt.submission.id).Nodup) {a b : Attempt}
    (ha : a ∈ attempts contest) (hb : b ∈ attempts contest) (h : a.submission.id = b.submission.id) : a = b :=
  List.inj_on_of_nodup_map hids ha hb h

/-- The verdicts of a contest with all late ones set to 0, but for that of submission `id`. -/
def onlySuccess (f : Int) (id : Option Int) (s : Submission) : Int :=
  if s.commitTime < f then s.statusCode else if some s.id = id then 2 else 0

theorem onlySuccess_early {id : Option Int} {s : Submission} (h : s.commitTime < f) :
    onlySuccess f id s = s.statusCode :=
  if_pos h

theorem onlySuccess_late {id : Option Int} {s : Submission} (h : isEarly f s = false) :
    onlySuccess f id s = if some s.id = id then 2 else 0 := if_neg (of_decide_eq_false h)

/-- A late attempt that is shown, no later than the first telling attempt of its group, is
    listed with its success. -/
theorem success_listed (hfrozen : contest.isFreeze clock.now = true) (hfreeze : request.freeze = true)
    {attempt first : Attempt} (hvisible : attempt ∈ visible clock contest request)
    (hshown : isShown clock contest request attempt.submission = true) (hlate : isEarly f attempt.submission = false)
    (hfirst : (groupOf clock contest request (attemptKey attempt)).find? (isTelling clock f contest request) =
      some first)
    (hown : isEarly f first.submission = false → first = attempt)
    (hle : intTime clock contest request attempt.submission ≤ intTime clock contest request first.submission) :
    let g := onlySuccess f (some attempt.submission.id)
    submitInfo clock (withVerdicts g contest) request (restatusAttempt g attempt) ∈
        submits (submissions clock (withVerdicts g contest) request) ∧
      (submitInfo clock (withVerdicts g contest) request (restatusAttempt g attempt)).result = 1 := by
  intro g
  have hg : g attempt.submission = 2 := by
    show onlySuccess f _ attempt.submission = 2
    rw [onlySuccess_late hlate, if_pos rfl]
  have hresult : ∀ b : Attempt,
      (result clock (withVerdicts g contest) request (restatusAttempt g b).submission == 1) = true ↔
      isShown clock contest request b.submission = true ∧ g b.submission = 2 := by
    intro b
    rw [beq_iff_eq]
    show result clock (withVerdicts g contest) request (restatus g b.submission) = 1 ↔ _
    rw [result_withVerdicts hfrozen hfreeze]
    by_cases hb : isShown clock contest request b.submission = true
    · by_cases hcode : g b.submission = 2
      · simp [hb, hcode]
      · simp [hb, hcode]
    · simp [hb]
  have hsuccess : (result clock (withVerdicts g contest) request (restatusAttempt g first).submission == 1) = true := by
    rw [hresult]
    obtain ⟨hshown, hcode⟩ := isTelling_iff.mp (List.find?_some hfirst)
    refine ⟨hshown, ?_⟩
    cases hearly : isEarly f first.submission with
    | false => rw [hown hearly, hg]
    | true =>
      show onlySuccess f _ first.submission = 2
      rw [onlySuccess_early (of_decide_eq_true hearly), hcode hearly]
  have hfind : (groupOf clock (withVerdicts g contest) request (attemptKey attempt)).find? (fun other =>
      result clock (withVerdicts g contest) request other.submission == 1) = some (restatusAttempt g first) := by
    rw [groupOf_withVerdicts, List.find?_map]
    refine congrArg (Option.map (restatusAttempt g)) (find?_of_imp hfirst hsuccess fun b _ hb => ?_)
    -- what is a success there is telling here
    obtain ⟨hshownb, hcode⟩ := (hresult b).mp hb
    refine isTelling_iff.mpr ⟨hshownb, fun hearly => ?_⟩
    have hsame : g b.submission = b.submission.statusCode := onlySuccess_early (of_decide_eq_true hearly)
    rw [← hsame, hcode]
  constructor
  · refine (mem_submits clock (withVerdicts g contest) request).mpr ⟨restatusAttempt g attempt, ?_, ?_, rfl⟩
    · rw [visible_withVerdicts]
      exact List.mem_map_of_mem hvisible
    · unfold isListed
      show ((groupOf clock (withVerdicts g contest) request (attemptKey attempt)).find? _).all _ = true
      rw [hfind, Option.all_some]
      exact decide_eq_true hle
  · show result clock (withVerdicts g contest) request (restatus g attempt.submission) = 1
    rw [result_withVerdicts hfrozen hfreeze, if_pos hshown, if_pos hg]

/-- It is not where it has none. -/
theorem success_not_listed (hfrozen : contest.isFreeze clock.now = true) (hfreeze : request.freeze = true)
    (hids : ((attempts contest).map fun attempt => attempt.submission.id).Nodup) {attempt : Attempt}
    (hmem : attempt ∈ attempts contest) (hlate : isEarly f attempt.submission = false) {info : SubmitInfo}
    (hinfo : info ∈ submits (submissions clock (withVerdicts (onlySuccess f none) contest) request))
    (hid : info.id = attempt.submission.id) : info.result ≠ 1 := by
  obtain ⟨other, hvisible, -, heq⟩ := (mem_submits clock _ request).mp hinfo
  rw [visible_withVerdicts] at hvisible
  obtain ⟨source, hsource, rfl⟩ := List.mem_map.mp hvisible
  subst heq
  have hsame := attempt_unique hids (List.mem_filter.mp hsource).1 hmem hid
  have hcode : onlySuccess f none source.submission = 0 := by
    rw [hsame, onlySuccess_late hlate]
    rfl
  show result clock (withVerdicts (onlySuccess f none) contest) request
      (restatus (onlySuccess f none) source.submission) ≠ 1
  rw [result_withVerdicts hfrozen hfreeze, hcode]
  split <;> decide

end Verdicts

/-! ## What a frozen payload hides -/

/-- The payload of a contest frozen at `f`: it is the same for every other set of late
    verdicts, and the results it lists of early submissions are the real ones. -/
structure Hides (texts : Texts) : Prop where
  same : ∀ c', SameButLate f contest c' →
    standingData clock texts c' request = standingData clock texts contest request
  real : ∀ info ∈ (standingData clock texts contest request).submits,
    ∀ attempt ∈ attempts contest, attempt.submission.id = info.id → attempt.submission.commitTime < f →
      info.result = if attempt.submission.statusCode = 2 then 1 else 0

section Law

variable {clock f contest request} {texts : Texts}

theorem mem_groupOf {attempt : Attempt} (h : attempt ∈ visible clock contest request) :
    attempt ∈ groupOf clock contest request (attemptKey attempt) :=
  List.mem_filter.mpr ⟨h, decide_eq_true rfl⟩

/-- A late attempt that is shown is cut off where the payload hides its verdict. -/
theorem exposed_settled (hf : contest.freezeTime = some f) (hfrozen : contest.isFreeze clock.now = true)
    (hfreeze : request.freeze = true) (hids : ((attempts contest).map fun attempt => attempt.submission.id).Nodup)
    (h : Hides clock f contest request texts) {attempt : Attempt}
    (hvisible : attempt ∈ visible clock contest request)
    (hshown : isShown clock contest request attempt.submission = true)
    (hlate : isEarly f attempt.submission = false) : Settled clock f contest request attempt := by
  -- no shown late attempt is listed with a success of its own
  have hleak : ∀ late ∈ visible clock contest request, ∀ first : Attempt,
      isShown clock contest request late.submission = true → isEarly f late.submission = false →
      (groupOf clock contest request (attemptKey late)).find?
        (isTelling clock f contest request) = some first →
      (isEarly f first.submission = false → first = late) →
      ¬intTime clock contest request late.submission ≤
        intTime clock contest request first.submission := by
    intro late hlateVisible first hlateShown hlateLate hfirst hown hle
    obtain ⟨hlisted, hone⟩ := success_listed hfrozen hfreeze hlateVisible hlateShown hlateLate hfirst hown hle
    have hboth : ∀ id, submits (submissions clock (withVerdicts (onlySuccess f id) contest) request) =
        submits (submissions clock contest request) := fun id =>
      congrArg Payload.submits (h.same _ (sameButLate_withVerdicts hf fun s hs => onlySuccess_early hs))
    rw [hboth, ← hboth none] at hlisted
    exact success_not_listed hfrozen hfreeze hids (List.mem_filter.mp hlateVisible).1 hlateLate hlisted rfl hone
  have htelling : isTelling clock f contest request attempt = true := by
    refine isTelling_iff.mpr ⟨hshown, fun hearly => ?_⟩
    rw [hlate] at hearly
    cases hearly
  obtain ⟨first, hfirst⟩ :=
    Option.isSome_iff_exists.mp (List.find?_isSome.mpr ⟨attempt, mem_groupOf hvisible, htelling⟩)
  obtain ⟨hfirstVisible, hkey⟩ := List.mem_filter.mp (List.mem_of_find?_eq_some hfirst)
  have hkey : attemptKey first = attemptKey attempt := of_decide_eq_true hkey
  cases hearly : isEarly f first.submission with
  | true =>
    refine ⟨first, hfirst, hearly, ?_⟩
    have hnot := hleak attempt hvisible first hshown hlate hfirst fun hfalse => by rw [hearly] at hfalse; cases hfalse
    omega
  | false =>
    -- the first telling attempt is itself late
    obtain ⟨hfirstShown, -⟩ := isTelling_iff.mp (List.find?_some hfirst)
    have hnot := hleak first hfirstVisible first hfirstShown hearly (by rw [hkey]; exact hfirst) fun _ => rfl
    exact absurd (le_refl _) hnot

/-- An early attempt that is not shown is not listed with a result of its own. -/
theorem withheld_unlisted (hfrozen : contest.isFreeze clock.now = true) (hfreeze : request.freeze = true)
    (h : Hides clock f contest request texts) {attempt : Attempt} (hvisible : attempt ∈ visible clock contest request)
    (hshown : isShown clock contest request attempt.submission = false)
    (hearly : isEarly f attempt.submission = true) : isListed clock contest request attempt = false := by
  cases hlisted : isListed clock contest request attempt with
  | false => rfl
  | true =>
    have hinfo := (mem_submits clock contest request).mpr ⟨attempt, hvisible, hlisted, rfl⟩
    have hreal := h.real _ hinfo attempt (List.mem_filter.mp hvisible).1 rfl (of_decide_eq_true hearly)
    have hresult : (submitInfo clock contest request attempt).result = -1 := by
      show result clock contest request attempt.submission = -1
      rw [result_frozen hfrozen hfreeze, hshown]
      rfl
    rw [hresult] at hreal
    split at hreal <;> cases hreal

/-- An early attempt that is not shown is cut off where the payload shows early results. -/
theorem withheld_settled (hf : contest.freezeTime = some f) (hfrozen : contest.isFreeze clock.now = true)
    (hfreeze : request.freeze = true) (hids : ((attempts contest).map fun attempt => attempt.submission.id).Nodup)
    (h : Hides clock f contest request texts) {attempt : Attempt}
    (hvisible : attempt ∈ visible clock contest request)
    (hshown : isShown clock contest request attempt.submission = false)
    (hearly : isEarly f attempt.submission = true) : Settled clock f contest request attempt := by
  have hunlisted := withheld_unlisted hfrozen hfreeze h hvisible hshown hearly
  unfold isListed at hunlisted
  rw [Option.all_eq_false] at hunlisted
  obtain ⟨fs, hfind, hlater⟩ := hunlisted
  have hone := List.find?_some hfind
  have hsuccess := (success_telling hfrozen hfreeze).mp (beq_iff_eq.mp hone)
  have htelling : isTelling clock f contest request fs = true :=
    isTelling_iff.mpr ⟨hsuccess.1, fun _ => hsuccess.2⟩
  obtain ⟨first, hfirst⟩ := Option.isSome_iff_exists.mp
    (List.find?_isSome.mpr ⟨fs, List.mem_of_find?_eq_some hfind, htelling⟩)
  obtain ⟨hfirstVisible, hkey⟩ := List.mem_filter.mp (List.mem_of_find?_eq_some hfirst)
  have hkey : attemptKey first = attemptKey attempt := of_decide_eq_true hkey
  obtain ⟨hfirstShown, -⟩ := isTelling_iff.mp (List.find?_some hfirst)
  cases hfirstEarly : isEarly f first.submission with
  | false =>
    -- a late first one would be settled by itself
    obtain ⟨other, hother, hotherEarly, -⟩ :=
      exposed_settled hf hfrozen hfreeze hids h hfirstVisible hfirstShown hfirstEarly
    rw [hkey, hfirst] at hother
    cases hother
    rw [hfirstEarly] at hotherEarly
    cases hotherEarly
  | true =>
    refine ⟨first, hfirst, hfirstEarly, ?_⟩
    have hsame := find_success hfrozen hfreeze hfirst hfirstEarly
    rw [hfind] at hsame
    cases hsame
    have hnot := of_decide_eq_false hlater
    omega

theorem hides_iff (hf : contest.freezeTime = some f) (hfrozen : contest.isFreeze clock.now = true)
    (hfreeze : request.freeze = true) (hids : ((attempts contest).map fun attempt => attempt.submission.id).Nodup) :
    Hides clock f contest request texts ↔ Sound clock f contest request := by
  constructor
  · intro h attempt hvisible
    cases hshown : isShown clock contest request attempt.submission with
    | true =>
      cases hearly : isEarly f attempt.submission with
      | true => exact Or.inl (hshown.trans hearly.symm)
      | false => exact Or.inr (exposed_settled hf hfrozen hfreeze hids h hvisible hshown hearly)
    | false =>
      cases hearly : isEarly f attempt.submission with
      | true => exact Or.inr (withheld_settled hf hfrozen hfreeze hids h hvisible hshown hearly)
      | false => exact Or.inl (hshown.trans hearly.symm)
  · intro hsound
    refine ⟨fun c' h => standingData_same texts hsound hfrozen hfreeze h, fun info hinfo attempt hmem hid hcommit => ?_⟩
    obtain ⟨other, hvisible, hlisted, rfl⟩ := (mem_submits clock contest request).mp hinfo
    have hsame := attempt_unique hids hmem (List.mem_filter.mp hvisible).1 hid
    subst hsame
    have hshown : isShown clock contest request attempt.submission = true := by
      refine (hsound attempt hvisible).elim (fun hright => hright.trans (decide_eq_true hcommit)) fun hsettled => ?_
      -- a settled attempt is not listed
      exfalso
      obtain ⟨first, hfirst, hearly, hless⟩ := hsettled
      have hgroup := upToSuccess_telling hfrozen hfreeze hfirst hearly
      rw [upToSuccess_group] at hgroup
      have hin : submitInfo clock contest request attempt ∈
          (((visible clock contest request).filter (isListed clock contest
            request)).filter fun a => decide (attemptKey a = attemptKey attempt)).map
              (submitInfo clock contest request) :=
        List.mem_map_of_mem (List.mem_filter.mpr ⟨List.mem_filter.mpr ⟨hvisible, hlisted⟩, decide_eq_true rfl⟩)
      rw [hgroup] at hin
      obtain ⟨other, hother, heq⟩ := List.mem_map.mp hin
      have hle := of_decide_eq_true (List.mem_filter.mp hother).2
      have htime := congrArg SubmitInfo.time heq
      have htime : intTime clock contest request other.submission =
          intTime clock contest request attempt.submission := htime
      omega
    show result clock contest request attempt.submission = _
    rw [result_frozen hfrozen hfreeze, if_pos hshown]

/-- Where the freeze's time of day is the time from the start to the freeze, as in a contest
    that starts at midnight, every attempt is judged rightly. -/
theorem sound_of_midnight (htime : timeOfFreeze clock contest = some (f - contest.startTime))
    (hstart : request.startTime = none ∨ request.startTime = some contest.startTime) :
    Sound clock f contest request := by
  intro attempt hvisible
  refine Or.inl ?_
  have hsome : (elapsed contest request attempt.submission).isSome = true := by
    have hvis := (List.mem_filter.mp hvisible).2
    unfold isVisible at hvis
    cases helapsed : elapsed contest request attempt.submission with
    | none => rw [helapsed] at hvis; simp at hvis
    | some time => rfl
  have helapsed : elapsed contest request attempt.submission =
      some (attempt.submission.commitTime - contest.startTime) := by
    unfold elapsed at hsome ⊢
    cases hcompetitor : attempt.submission.user.competitor with
    | some info => rfl
    | none =>
      rw [hcompetitor] at hsome
      rcases hstart with hnone | hsame
      · rw [hnone] at hsome; cases hsome
      · rw [hsame]; rfl
  unfold Rightly isShown isEarly
  rw [helapsed, htime, Option.any_some, Option.any_some]
  exact decide_eq_decide.mpr (by omega)

end Law

/-! ### A contest from ten to three -/

def sampleClock : DataClock := ⟨885 * ticksPerMinute, 0, fun ticks => ticks.tdiv 10000⟩

def sampleTexts : Texts := ⟨"", fun _ => "", fun _ => .ok []⟩

def sampleUser : User := ⟨7, "team", false, false, some ⟨true, false⟩⟩

/-- Three hundred minutes from the minute `start` of the day, frozen after 240, with a
    submission after 270. -/
def sampleContest (start status : Int) : Contest where
  abbr := "acm"
  startTime := start * ticksPerMinute
  endTime := (start + 300) * ticksPerMinute
  freezeTime := some ((start + 240) * ticksPerMinute)
  problems := [⟨1, 1, [⟨1, status, false, (start + 270) * ticksPerMinute, none, sampleUser, 1⟩], by simp⟩]
  competitors := [⟨sampleUser, ⟨true, false⟩, rfl⟩]
  problem_ids := by simp
  problem_count := by simp [maxCount]

/-- From ten to three, frozen at two: the verdict of half past two is shown. -/
theorem sample_shows :
    ¬Hides sampleClock (840 * ticksPerMinute) (sampleContest 600 2) ⟨true, none, none⟩ sampleTexts := by
  intro h
  have hlate : SameButLate (840 * ticksPerMinute) (sampleContest 600 2) (sampleContest 600 (-1001)) :=
    ⟨rfl, rfl, rfl, ⟨rfl, rfl⟩, rfl, by decide⟩
  have hsubmits := congrArg Payload.submits (h.same _ hlate)
  revert hsubmits
  decide

/-- From midnight to five it is hidden. -/
theorem sample_hides : Hides ⟨285 * ticksPerMinute, 0, fun ticks => ticks.tdiv 10000⟩ (240 * ticksPerMinute)
    (sampleContest 0 2) ⟨true, none, none⟩ sampleTexts :=
  (hides_iff rfl (by decide) rfl (by decide)).mpr (sound_of_midnight (by decide) (Or.inl rfl))

end OlympSystem.Domain.DataFreeze
