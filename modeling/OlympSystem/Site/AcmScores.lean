/-
  OlympSystem.Site.AcmScores — what counts as solved in the standings of an ACM contest.

  `UserProblemStanding` takes a submission as a success if it has status 2 or a positive
  score. A check that stops at its first failure has the scores of the tests before it,
  so that an archive with scores for more than the last test lets a failed submission
  solve the problem.

  The site is that of the queue, with participants who send in submissions.

  Proved:
  - `check_positive`: where only the last test pays, a positive score is an acceptance.
  - `inv_step`: in an ACM contest a row with a positive score is accepted, or is not
    judged, as long as imports pay for the last test alone and saves write the score.
  - `cell_accepted`: in such a state a solved cell has a counted, accepted submission.
  - `solved_is_accepted`: so it is throughout every such run.
  - `a_failed_submission_solves`: an import with scores for two tests.
-/

import OlympSystem.Domain.Rows
import OlympSystem.Site.ExclusiveJudging
import OlympSystem.Site.ResultAgreement
import OlympSystem.Site.Scores

namespace OlympSystem.Site.AcmScores

open Lib.Runs Lib.Tables Lib.Query Lib.Program Lib.Dictionaries OlympSystem.Checker ProblemArchive CheckerManager Queue

/-! ## A check that stops at the first failure -/

/-- No test but the last has a positive score. -/
def LastOnly (scores : List (Option Int)) : Prop := ∀ score ∈ scores.dropLast, score.getD 0 ≤ 0

theorem sum_nonpos {l : List Int} (h : ∀ x ∈ l, x ≤ 0) : l.sum ≤ 0 := by
  have := Scores.sum_le_of_bounded h
  simpa using this

/-- The tests before the last one that was run are not the last one of the request. -/
theorem mem_dropLast {tests rest : List CheckTest} {runs : List Verdict.TestRun}
    (h : tests = runs.map Verdict.TestRun.test ++ rest) {run : Verdict.TestRun} (hrun : run ∈ runs.dropLast) :
    run.test ∈ tests.dropLast := by
  have hmem : run.test ∈ (runs.map Verdict.TestRun.test).dropLast := by
    rw [← List.map_dropLast]
    exact List.mem_map_of_mem hrun
  rw [h]
  cases rest with
  | nil => rwa [List.append_nil]
  | cons test rest =>
    rw [List.dropLast_append_of_ne_nil (by simp)]
    exact List.mem_append_left _ ((List.dropLast_sublist _).subset hmem)

/-- A positive score that only the last test can give is an acceptance. -/
theorem check_positive {svc : CheckerService} {platform : Platform} {request : CheckRequest} {elapsed : TimeSpan}
    {fields : Fields} {answers : Verdict.Answers} {result : CheckerResult}
    (hall : request.allTests = false) (hlast : LastOnly (request.tests.map (·.score)))
    (h : (Prog.solo (svc.check platform request elapsed) fields answers).result = .ok result) :
    ∀ score ∈ result.score, 0 < score → result.statusCode = 2 := by
  obtain ⟨havail, hsup, compileResult, h0⟩ := Verdict.check_available platform elapsed h
  by_cases hc : compileResult.status = .completed
  · obtain ⟨checker, runs, -, hexec, -, -, hcode, hscored⟩ := Verdict.check_scored platform elapsed h0 hc h
    intro score hscore hpos
    by_contra hne
    rw [Option.mem_def] at hscore
    have hpays : ∃ test ∈ request.tests, test.score ≠ none := by
      by_contra hnone
      have hnull := (hscored.nulls.mpr fun test htest => by_contra fun hs => hnone ⟨test, htest, hs⟩).1
      rw [hnull] at hscore
      cases hscore
    rw [hscored.score hpays] at hscore
    have hsum := Option.some.inj hscore
    rw [hall] at hexec
    obtain ⟨rest, htests, hbefore, -⟩ := hexec
    -- a run failed, and it is the last one
    have hfailed : ∃ run ∈ runs, run.verdict ≠ .accepted := by
      by_contra hnone
      exact hne ((Verdict.statusCodeOf_two hcode).mpr fun run hrun => by_contra fun hv => hnone ⟨run, hrun, hv⟩)
    obtain ⟨failed, hfailed, hverdict⟩ := hfailed
    have hruns := List.dropLast_append_getLast (List.ne_nil_of_mem hfailed)
    have hlastRun : runs.getLast (List.ne_nil_of_mem hfailed) = failed := by
      rw [← hruns] at hfailed
      rcases List.mem_append.mp hfailed with hmem | hmem
      · exact absurd (hbefore failed hmem) hverdict
      · exact (List.mem_singleton.mp hmem).symm
    have hnonpos : ∀ x ∈ (runs.filter (·.verdict = .accepted)).map (fun run => run.test.score.getD 0), x ≤ 0 := by
      intro x hx
      obtain ⟨run, hrun, rfl⟩ := List.mem_map.mp hx
      obtain ⟨hmem, haccepted⟩ := List.mem_filter.mp hrun
      have hdrop : run ∈ runs.dropLast := by
        rw [← hruns] at hmem
        rcases List.mem_append.mp hmem with hmem | hmem
        · exact hmem
        · rw [List.mem_singleton.mp hmem, hlastRun] at haccepted
          exact absurd (of_decide_eq_true haccepted) hverdict
      have htest : run.test.score ∈ (request.tests.map (·.score)).dropLast := by
        rw [← List.map_dropLast]
        exact List.mem_map_of_mem (mem_dropLast htests hdrop)
      exact hlast _ htest
    have := sum_nonpos hnonpos
    omega
  · rw [Verdict.solo_compiled platform elapsed havail hsup h0, if_pos hc] at h
    cases h
    intro score hscore
    cases hscore

/-! ## The site -/

/-- What a participant sends in, and when. -/
structure Post where
  text : String
  problemId : Int
  compilatorId : Int
  commitTime : Int
  lastModification : Int

def posted : Maker Post SubmissionRow.id where
  make post id :=
    { id := id, text := post.text, statusCode := 0, commitTime := post.commitTime,
      lastModification := post.lastModification, score := none, scoresByTest := none, problemId := post.problemId,
      compilatorId := post.compilatorId }
  keyed _ _ := rfl

inductive Event where
  | queue (e : Ev)
  | post (post : Post)

def siteStep (deployment : Deployment) (s : St) : Event → Option St
  | .queue e => step deployment s e
  | .post post =>
    if h : ∃ problem ∈ s.db.problems.rows, problem.id = post.problemId then
      some { s with db := s.db.insertSubmission posted post h }
    else none

/-! ## The condition -/

def IsAcm (culture : Domain.Culture) (contest : ContestRow) : Prop := culture.startsWith contest.abbr "acm" = true

/-- A problem of an ACM contest. -/
def AcmProblem (culture : Domain.Culture) (db : Db) (problemId : Int) : Prop :=
  ∃ problem ∈ db.problems.rows, problem.id = problemId ∧
    ∃ contest ∈ db.contests.rows, contest.id = problem.contestId ∧ IsAcm culture contest

/-- The manifest gives a positive score to no test but the last. -/
def PaysLast (item : ImportedProblem) : Prop :=
  ∀ scores ∈ item.manifest.scores, ∀ test ∈ item.tests.dropLast, lookupD scores test.number ≤ 0

/-- Archives that are imported into an ACM contest pay for the last test alone; and the
    save of a returned check of such a contest finds the score as it was read at the
    claim, if it leaves it out. -/
def Meets (deployment : Deployment) (s : St) : Event → St → Prop
  | .queue (.importAsync contestId source), _ =>
    (∃ contest ∈ s.db.contests.rows, contest.id = contestId ∧ IsAcm deployment.service.culture contest) →
    ∀ imported, readAsync deployment.service.options deployment.service.runtime source = .ok imported →
      ∀ item ∈ imported, PaysLast item
  | .queue (.save a), _ => ∀ check ∈ (s.call a).inFlight, check.result ≠ none →
      ∀ x ∈ s.db.submissions.rows, x.id = check.original.id →
        AcmProblem deployment.service.culture s.db x.problemId →
        ResultAgreement.Unchanged check.original.score check.current.score x.score
  | _, _ => True

section

variable (culture : Domain.Culture) (db : Db)

instance (contest : ContestRow) : Decidable (IsAcm culture contest) :=
  inferInstanceAs (Decidable (_ = _))

instance (problemId : Int) : Decidable (AcmProblem culture db problemId) :=
  inferInstanceAs (Decidable (∃ problem ∈ db.problems.rows, problem.id = problemId ∧
    ∃ contest ∈ db.contests.rows, contest.id = problem.contestId ∧ IsAcm culture contest))

instance (item : ImportedProblem) : Decidable (PaysLast item) :=
  inferInstanceAs (Decidable (∀ scores ∈ item.manifest.scores, ∀ test ∈ item.tests.dropLast,
    lookupD scores test.number ≤ 0))

instance (deployment : Deployment) (s : St) (e : Event) (s' : St) : Decidable (Meets deployment s e s') := by
  unfold Meets
  split
  · next contestId source =>
    cases readAsync deployment.service.options deployment.service.runtime source with
    | error e => exact isTrue fun _ _ h => (nomatch h)
    | ok imported =>
      exact decidable_of_iff
        ((∃ contest ∈ s.db.contests.rows, contest.id = contestId ∧ IsAcm deployment.service.culture contest) →
          ∀ item ∈ imported, PaysLast item)
        ⟨fun h hacm _ he => Except.ok.inj he ▸ h hacm, fun h hacm => h hacm imported rfl⟩
  · unfold ResultAgreement.Unchanged
    infer_instance
  · infer_instance

end

/-! ## The invariant -/

def activeScores (problem : ProblemRow) : List (Option Int) := (activeTests problem).map (·.content.score)

/-- A row that is not waiting has a positive score only if it was accepted. -/
def ScoreEarned (x : SubmissionRow) : Prop :=
  ∀ score ∈ x.score, 0 < score → x.statusCode = 0 ∨ x.statusCode = 1 ∨ x.statusCode = 2

/-- In ACM contests only last tests pay, and only accepted submissions are paid. -/
structure Scored (culture : Domain.Culture) (db : Db) : Prop where
  tests : ∀ problem ∈ db.problems.rows, AcmProblem culture db problem.id → LastOnly (activeScores problem)
  submissions : ∀ x ∈ db.submissions.rows, AcmProblem culture db x.problemId → ScoreEarned x

/-- What was loaded with a submission: if this is one of an ACM contest, so is what was
    loaded, and only its last test pays. -/
structure LoadedOk (culture : Domain.Culture) (db : Db) (loaded : Loaded) : Prop where
  known : loaded.submission.id < db.submissions.next
  acm : ∀ x ∈ db.submissions.rows, x.id = loaded.submission.id → AcmProblem culture db x.problemId →
    IsAcm culture loaded.contest ∧ LastOnly (loaded.tests.map (·.content.score))

structure Importing (culture : Domain.Culture) (db : Db) (contestId : Int) (imported : List ImportedProblem) :
    Prop where
  accepted : ∀ item ∈ imported, Accepted item
  numbers : (imported.map (·.manifest.number)).Nodup
  pays : (∃ contest ∈ db.contests.rows, contest.id = contestId ∧ IsAcm culture contest) →
    ∀ item ∈ imported, PaysLast item

def OperationOk (culture : Domain.Culture) (db : Db) : Operation → Prop
  | .import contestId imported => Importing culture db contestId imported
  | _ => True

/-- What an import is about to save was made of the database as it is. -/
def PlanOk (culture : Domain.Culture) (db : Db) : Plan → Prop
  | .import tracker => ∃ contest ∈ db.contests.rows, ∃ imported, Importing culture db contest.id imported ∧
      tracker = ImportLaw.importedTracker (contest.isSchool culture) contest.id db imported
  | _ => True

def CallOk (culture : Domain.Culture) (db : Db) : Call → Prop
  | .waiting operation | .reading operation => OperationOk culture db operation
  | .ready plan => PlanOk culture db plan
  | .claiming _ loaded _ _ => LoadedOk culture db loaded
  | .claimed check | .judging check | .judged check | .saving check | .committing check =>
    LoadedOk culture db check.loaded
  | _ => True

structure Inv (deployment : Deployment) (s : St) : Prop where
  gate : GateHeld s
  shape : ∀ a, Shape deployment (s.call a)
  scored : Scored deployment.service.culture s.db
  calls : ∀ a, CallOk deployment.service.culture s.db (s.call a)

/-! ## What writes keep -/

/-- Contests stay, problems keep theirs, and submissions theirs. -/
structure Keeps (culture : Domain.Culture) (db db' : Db) : Prop where
  contests : db'.contests = db.contests
  next : db.submissions.next ≤ db'.submissions.next
  submissions : ∀ x' ∈ db'.submissions.rows, x'.id < db.submissions.next →
    ∃ x ∈ db.submissions.rows, x.id = x'.id ∧ x.problemId = x'.problemId
  acm : ∀ problem ∈ db.problems.rows, AcmProblem culture db' problem.id → AcmProblem culture db problem.id

section Keeps

variable {culture : Domain.Culture} {db db' : Db}

theorem Keeps.refl (culture : Domain.Culture) (db : Db) : Keeps culture db db :=
  ⟨rfl, Int.le_refl _, fun x hx _ => ⟨x, hx, rfl, rfl⟩, fun _ _ h => h⟩

/-- A submission that was there is in an ACM contest only if it was. -/
theorem Keeps.acm_submission (h : Keeps culture db db') {x : SubmissionRow} (hx : x ∈ db.submissions.rows)
    (hacm : AcmProblem culture db' x.problemId) : AcmProblem culture db x.problemId := by
  obtain ⟨problem, hproblem, hid⟩ := db.submissions_of x hx
  rw [← hid] at hacm ⊢
  exact h.acm problem hproblem hacm

theorem Keeps.loaded (h : Keeps culture db db') {loaded : Loaded} (hl : LoadedOk culture db loaded) :
    LoadedOk culture db' loaded where
  known := lt_of_lt_of_le hl.known h.next
  acm x' hx' hid hacm := by
    obtain ⟨x, hx, hid', hproblem⟩ := h.submissions x' hx' (hid ▸ hl.known)
    rw [← hproblem] at hacm
    exact hl.acm x hx (hid'.trans hid) (h.acm_submission hx hacm)

theorem Keeps.importing (h : Keeps culture db db') {contestId : Int} {imported : List ImportedProblem}
    (hi : Importing culture db contestId imported) : Importing culture db' contestId imported :=
  ⟨hi.accepted, hi.numbers, h.contests ▸ hi.pays⟩

/-- Calls outside the gate go on as they were; in the gate only one with a plan minds. -/
theorem Keeps.call (h : Keeps culture db db') {call : Call} (hready : ∀ plan, call ≠ .ready plan)
    (hcall : CallOk culture db call) : CallOk culture db' call := by
  cases call with
  | waiting operation | reading operation =>
    cases operation with
    | «import» contestId imported => exact h.importing hcall
    | retest | retestCompilationErrors => trivial
  | ready plan => exact absurd rfl (hready plan)
  | claiming checker loaded span at_ => exact h.loaded hcall
  | claimed check | judging check | judged check | saving check | committing check => exact h.loaded hcall
  | «over» | entering | picking | leaving => trivial

/-- An update of submissions. -/
theorem keeps_updateSubmissions (culture : Domain.Culture) (db : Db) (u : SubmissionUpdate) :
    Keeps culture db (db.updateSubmissions u) where
  contests := rfl
  next := Int.le_refl _
  submissions x' hx' _ := by
    obtain ⟨x, hx, rfl⟩ := List.mem_map.mp hx'
    exact ⟨x, hx, (u.keeps x).symm, (u.problem x).symm⟩
  acm _ _ h := h

theorem keeps_saveChanges (culture : Domain.Culture) (db : Db) (check : Check) :
    Keeps culture db (check.saveChanges db) := by
  unfold Check.saveChanges
  cases check.result with
  | none => exact keeps_updateSubmissions culture db _
  | some row =>
    have h := keeps_updateSubmissions culture db (check.writeUpdate.restrict (·.id == check.original.id))
    exact ⟨h.contests, h.next, h.submissions, h.acm⟩

theorem keeps_post (culture : Domain.Culture) (db : Db) (post : Post)
    (h : ∃ problem ∈ db.problems.rows, problem.id = post.problemId) :
    Keeps culture db (db.insertSubmission posted post h) where
  contests := rfl
  next := by
    show db.submissions.next ≤ db.submissions.next + 1
    omega
  submissions x' hx' hlt := by
    rcases List.mem_append.mp hx' with hx | hx
    · exact ⟨x', hx, rfl, rfl⟩
    · rw [List.mem_singleton.mp hx] at hlt
      exact absurd hlt (Int.lt_irrefl _)
  acm _ _ h := h

end Keeps

/-! ## Imports -/

section Imports

variable {culture : Domain.Culture} {db : Db} {contest : ContestRow} {imported : List ImportedProblem}

/-- No abbreviation starts with `acm` and with `school`. -/
def Separates (culture : Domain.Culture) : Prop :=
  ∀ abbr, culture.startsWith abbr "acm" = true → culture.startsWith abbr "school" = false

/-- The scores of imported tests, where the manifest pays for the last one alone. -/
theorem lastOnly_imported {item : ImportedProblem} (h : PaysLast item) :
    LastOnly ((importedTests false item).map (·.score)) := by
  intro score hscore
  cases hscores : item.manifest.scores with
  | none =>
    have hmem := (List.dropLast_sublist _).subset hscore
    obtain ⟨content, hcontent, rfl⟩ := List.mem_map.mp hmem
    obtain ⟨i, hi, rfl⟩ := List.mem_mapIdx.mp hcontent
    simp [importedScore, hscores]
  | some scores =>
    have hmap : (importedTests false item).map (·.score) =
        item.tests.map fun test => some (lookupD scores test.number) := by
      refine List.ext_getElem? fun i => ?_
      simp only [importedTests, List.getElem?_map, List.getElem?_mapIdx, Option.map_map, importedScore, hscores]
      rfl
    rw [hmap, ← List.map_dropLast] at hscore
    obtain ⟨test, htest, rfl⟩ := List.mem_map.mp hscore
    exact h scores hscores test htest

/-- The active tests of an imported problem are all of its tests. -/
theorem activeScores_imported {isSchool : Bool} {item : ImportedProblem} (h : Accepted item) {row : ProblemRow}
    (hcontent : ImportLaw.HasContent isSchool item row) :
    activeScores row = (importedTests isSchool item).map (·.score) := by
  have hactive : row.tests.filter (·.content.isActive) = row.tests := by
    refine List.filter_eq_self.mpr fun test htest => ?_
    have hmem : test.content ∈ importedTests isSchool item := hcontent.tests ▸ List.mem_map_of_mem htest
    obtain ⟨i, hi, heq⟩ := List.mem_mapIdx.mp hmem
    rw [← heq]
  have hnumbers : row.tests.map (·.content.number) = item.tests.map ImportedTest.number := by
    have hmap : (row.tests.map TestRow.content).map TestContent.number = item.tests.map ImportedTest.number := by
      rw [hcontent.tests]
      refine List.ext_getElem? fun i => ?_
      simp only [importedTests, List.getElem?_map, List.getElem?_mapIdx, Option.map_map]
      rfl
    rwa [List.map_map] at hmap
  have hsorted : row.tests.Pairwise (fun a b => byKey (fun test : TestRow => test.content.number) a b = true) := by
    have hincreasing := h.numbers
    rw [← hnumbers, List.pairwise_map] at hincreasing
    exact hincreasing.imp fun hlt => decide_eq_true (le_of_lt hlt)
  unfold activeScores activeTests
  rw [hactive, orderBy_of_sorted hsorted, ← hcontent.tests, List.map_map]
  rfl

variable (hi : Importing culture db contest.id imported)

include hi

theorem keeps_import : Keeps culture db
    (saveChanges db (ImportLaw.importedTracker (contest.isSchool culture) contest.id db imported)) := by
  obtain ⟨f, new, hrows⟩ := ImportLaw.imported_rows (contest.isSchool culture) contest.id db hi.numbers
  have hsame := ImportLaw.saveChanges_same db
    (ImportLaw.importedTracker (contest.isSchool culture) contest.id db imported)
  refine ⟨hsame.contests, by rw [hsame.submissions], fun x hx _ => ⟨x, hsame.submissions ▸ hx, rfl, rfl⟩, ?_⟩
  rintro problem hproblem ⟨problem', hproblem', hid, hcontest⟩
  rw [hsame.contests] at hcontest
  rcases hrows.cases hproblem' with ⟨old, hold, rfl⟩ | hnew
  · obtain ⟨hid', hcontest', -⟩ := hrows.kept hold
    rw [hcontest'] at hcontest
    exact ⟨old, hold, hid'.symm.trans hid, hcontest⟩
  · obtain ⟨item, -, hisNew⟩ := (forall₂_exists hrows.new).2 problem' hnew
    have hge := hisNew.1
    have hlt := db.problems.below problem hproblem
    omega

theorem scored_import (hculture : Separates culture) (h : Scored culture db)
    (hcontest : contest ∈ db.contests.rows) : Scored culture
      (saveChanges db (ImportLaw.importedTracker (contest.isSchool culture) contest.id db imported)) := by
  have hkeeps := keeps_import hi
  obtain ⟨f, new, hrows⟩ := ImportLaw.imported_rows (contest.isSchool culture) contest.id db hi.numbers
  have hsame := ImportLaw.saveChanges_same db
    (ImportLaw.importedTracker (contest.isSchool culture) contest.id db imported)
  -- a problem with the content of the archive, in the contest
  have hcontent : ∀ (db' : Db), db'.contests = db.contests → ∀ problem' ∈ db'.problems.rows, ∀ item ∈ imported,
      problem'.contestId = contest.id → ImportLaw.HasContent (contest.isSchool culture) item problem' →
      AcmProblem culture db' problem'.id → LastOnly (activeScores problem') := by
    rintro db' hcontests problem' hproblem' item hitem hid hhas ⟨same, hsameMem, hsameId, other, hother, hotherId, hacm⟩
    rw [hcontests] at hother
    have hproblem : same = problem' := Table.row_unique hsameMem hproblem' hsameId
    have hrow : other = contest := Table.row_unique hother hcontest (by rw [hotherId, hproblem, hid])
    rw [hrow] at hacm
    have hschool : contest.isSchool culture = false := hculture contest.abbr hacm
    rw [activeScores_imported (hi.accepted item hitem) hhas, hschool]
    exact lastOnly_imported (hi.pays ⟨contest, hcontest, rfl, hacm⟩ item hitem)
  refine ⟨fun problem' hproblem' hacm => ?_, fun x hx hacm => ?_⟩
  · rcases hrows.cases hproblem' with ⟨old, hold, rfl⟩ | hnew
    · by_cases hexisting : old ∈ ContestProblemService.existingProblems db contest.id imported
      · obtain ⟨item, hitem, -, next, hf⟩ := hrows.replaced old hexisting
        obtain ⟨-, hid, -⟩ := ImportLaw.mem_existing.mp hexisting
        have hhas := ImportLaw.importedRow_content (contest.isSchool culture) item old next
        refine hcontent _ hsame.contests _ hproblem' item hitem ?_ (hf ▸ hhas) hacm
        rw [(hrows.kept hold).2.1, hid]
      · rw [hrows.other old hold hexisting] at hacm ⊢
        exact h.tests old hold (hkeeps.acm old hold hacm)
    · obtain ⟨item, hitem, hisNew⟩ := (forall₂_exists hrows.new).2 problem' hnew
      obtain ⟨hhas, hid, -⟩ := hisNew.content
      exact hcontent _ hsame.contests _ hproblem' item (ImportLaw.mem_addedItems.mp hitem).1 hid hhas hacm
  · rw [hsame.submissions] at hx
    exact h.submissions x hx (hkeeps.acm_submission hx hacm)

end Imports

/-! ## Saves and other updates -/

section Saves

variable {deployment : Deployment} {db : Db}

theorem scored_updateSubmissions {culture : Domain.Culture} (u : SubmissionUpdate) (h : Scored culture db)
    (hu : ∀ x ∈ db.submissions.rows, AcmProblem culture db x.problemId → ScoreEarned (u.apply x)) :
    Scored culture (db.updateSubmissions u) := by
  refine ⟨h.tests, fun x hx hacm => ?_⟩
  obtain ⟨y, hy, rfl⟩ := List.mem_map.mp hx
  rw [u.problem] at hacm
  exact hu y hy hacm

theorem scored_claim {culture : Domain.Culture} (now : Int) (p : SubmissionRow → Bool) (h : Scored culture db) :
    Scored culture (db.updateSubmissions ((claimUpdate now).restrict p)) := by
  refine scored_updateSubmissions _ h fun x hx hacm => ?_
  rcases ResultAgreement.restrict_cases (claimUpdate now) p x with e | e
  · rw [e]; exact h.submissions x hx hacm
  · rw [e]; exact fun _ _ _ => Or.inr (Or.inl rfl)

theorem scored_requeue {culture : Domain.Culture} (now : Int) (p : SubmissionRow → Bool) (h : Scored culture db) :
    Scored culture (db.updateSubmissions ((requeue now).restrict p)) := by
  refine scored_updateSubmissions _ h fun x hx hacm => ?_
  rcases ResultAgreement.restrict_cases (requeue now) p x with e | e
  · rw [e]; exact h.submissions x hx hacm
  · rw [e]; exact fun _ _ _ => Or.inl rfl

/-- The result of a check of an ACM contest: a positive score is an acceptance. -/
theorem returned_earned (hculture : Separates deployment.service.culture) {check : Check} {row : CheckResultRow}
    (hs : Succeeded deployment check row) (hacm : IsAcm deployment.service.culture check.loaded.contest)
    (hlast : LastOnly (check.loaded.tests.map (·.content.score))) :
    ∀ score ∈ row.score, 0 < score → row.statusCode = 2 := by
  obtain ⟨answers, elapsed, hchecked⟩ := hs.checked
  obtain ⟨request, hrequest, hresult⟩ := Check.outcome_ok hchecked
  have hmade := createCheckRequest_made hrequest
  refine check_positive ?_ ?_ hresult
  · rw [hmade.allTests]
    exact hculture _ hacm
  · rw [hmade.tests, List.map_map]
    exact hlast

theorem scored_save (hculture : Separates deployment.service.culture) {check : Check} (ha : Attached check)
    (he : Ended deployment check) (hl : LoadedOk deployment.service.culture db check.loaded)
    (hunchanged : check.result ≠ none → ∀ x ∈ db.submissions.rows, x.id = check.original.id →
      AcmProblem deployment.service.culture db x.problemId →
      ResultAgreement.Unchanged check.original.score check.current.score x.score)
    (h : Scored deployment.service.culture db) : Scored deployment.service.culture (check.saveChanges db) := by
  have hupdate : Scored deployment.service.culture
      (db.updateSubmissions (check.writeUpdate.restrict (·.id == check.original.id))) := by
    refine scored_updateSubmissions _ h fun x hx hacm => ?_
    rw [ResultAgreement.write_cases]
    by_cases hid : x.id = check.original.id
    · rw [if_pos hid]
      have h1 : check.original.statusCode = 1 := by rw [ha.original]
      rcases he with hf | ⟨row, hrow⟩
      · -- the status is changed back to 0
        refine fun _ _ _ => Or.inl ?_
        simp only [Check.write, saved, hf.statusCode, h1]
        rfl
      · have hloaded : x.id = check.loaded.submission.id := by rw [hid, ha.original]
        obtain ⟨hcontest, hlast⟩ := hl.acm x hx hloaded hacm
        have hresult : check.result ≠ none := by rw [hrow.result]; exact Option.some_ne_none _
        have hwritten : (check.write x).score = row.score := by
          rw [← hrow.score]
          exact saved_eq_current.mpr (hunchanged hresult x hx hid hacm)
        have hne : ¬row.statusCode = check.original.statusCode := by rw [h1]; exact hrow.code.2
        have hcode : (check.write x).statusCode = row.statusCode := by
          simp only [Check.write, saved, hrow.statusCode, if_neg hne]
        intro score hscore hpos
        rw [hwritten] at hscore
        rw [hcode]
        exact Or.inr (Or.inr (returned_earned hculture hrow hcontest hlast score hscore hpos))
    · rw [if_neg hid]; exact h.submissions x hx hacm
  unfold Check.saveChanges
  cases check.result with
  | none => exact hupdate
  | some row => exact ⟨hupdate.tests, hupdate.submissions⟩

theorem scored_post {culture : Domain.Culture} (post : Post)
    (hpost : ∃ problem ∈ db.problems.rows, problem.id = post.problemId) (h : Scored culture db) :
    Scored culture (db.insertSubmission posted post hpost) := by
  refine ⟨h.tests, fun x hx hacm => ?_⟩
  rcases List.mem_append.mp hx with hx | hx
  · exact h.submissions x hx hacm
  · rw [List.mem_singleton.mp hx]
    exact fun _ _ _ => Or.inl rfl

end Saves

/-! ## Steps -/

section Steps

variable {deployment : Deployment}

/-- What a step of the queue makes of the database. -/
theorem db_step (hculture : Separates deployment.service.culture) {s s' : St} {e : Ev} (h : Inv deployment s)
    (hm : Meets deployment s (.queue e) s') (hs : step deployment s e = some s') :
    Keeps deployment.service.culture s.db s'.db ∧ Scored deployment.service.culture s'.db := by
  rcases step_writes hs with hw | ⟨hdb, -⟩
  · generalize s'.db = db at hw
    cases hw with
    | claim a checker loaded span at_ _ _ =>
      exact ⟨keeps_updateSubmissions _ _ _, scored_claim at_ _ h.scored⟩
    | save a check hc =>
      have hshape := h.shape a
      have hcall := h.calls a
      rw [hc] at hshape hcall
      have hunchanged := hm check (by rw [hc]; rfl)
      exact ⟨keeps_saveChanges _ _ _, scored_save hculture hshape.1 hshape.2 hcall hunchanged h.scored⟩
    | commit a plan hc =>
      have hcall := h.calls a
      rw [hc] at hcall
      cases plan with
      | «import» tracker =>
        obtain ⟨contest, hcontest, imported, himporting, rfl⟩ := hcall
        exact ⟨keeps_import himporting, scored_import himporting hculture h.scored hcontest⟩
      | retest problemId exceptAccepted =>
        exact ⟨keeps_updateSubmissions _ _ _, scored_requeue s.now _ h.scored⟩
      | retestCompilationErrors problemIds =>
        exact ⟨keeps_updateSubmissions _ _ _, scored_requeue s.now _ h.scored⟩
  · rw [hdb]
    exact ⟨Keeps.refl _ _, h.scored⟩

/-- A plan is made of what is there. -/
theorem planOk_prepare {service : ContestProblemService} {db : Db} {operation : Operation} {plan : Plan}
    (ho : OperationOk service.culture db operation) (h : operation.prepare service db = .ok plan) :
    PlanOk service.culture db plan := by
  cases plan with
  | «import» tracker =>
    obtain ⟨contest, hcontest, imported, rfl, rfl⟩ := ExclusiveJudging.prepare_import h
    exact ⟨contest, hcontest, imported, ho, rfl⟩
  | retest | retestCompilationErrors => trivial

/-- What a claim loads is what is there. -/
theorem loadedOk_pick {culture : Domain.Culture} {db : Db} {ids : List Int} {span id : Int} {loaded : Loaded}
    (h : Scored culture db) (hfirst : first (candidates db ids span) id = some loaded) :
    LoadedOk culture db loaded := by
  obtain ⟨hjoined, hsubmission, -, hproblem, hcontest⟩ := first_loaded hfirst
  refine ⟨db.submissions.below _ hsubmission, fun x hx hid hacm => ?_⟩
  have hrow : x = loaded.submission := Table.row_unique hx hsubmission hid
  rw [hrow, ← hjoined.problem] at hacm
  refine ⟨?_, ?_⟩
  · obtain ⟨problem, hmem, hpid, contest, hcmem, hcid, hacm⟩ := hacm
    have hsame : problem = loaded.problem := Table.row_unique hmem hproblem hpid
    have hsame' : contest = loaded.contest :=
      Table.row_unique hcmem hcontest (by rw [hcid, hsame, hjoined.contest])
    exact hsame' ▸ hacm
  · rw [hjoined.tests]
    exact h.tests loaded.problem hproblem hacm

theorem callOk_move {s : St} {a : Nat} {call : Call} {db : Db} (h : Inv deployment s)
    (hm : Move deployment s.db s.now (s.call a) call db) (hkeeps : Keeps deployment.service.culture s.db db) :
    CallOk deployment.service.culture db call := by
  have hcall := h.calls a
  generalize s.call a = before at hm hcall
  cases hm with
  | enterReading operation => exact hcall
  | prepare operation plan hplan => exact planOk_prepare hcall hplan
  | pick checker ids span id loaded hfirst => exact loadedOk_pick h.scored hfirst
  | claim checker loaded span at_ _ => exact hkeeps.loaded hcall
  | leaveClaimed check => exact hcall
  | enterCommitting check => exact hcall
  | judge check answers elapsed =>
    show LoadedOk _ _ (check.judge deployment s.now answers elapsed).loaded
    rw [(judge_keeps check s.now answers elapsed).2]
    exact hcall
  | abort check => exact hcall
  | stamp check => exact hcall
  | cancel | enterPicking | drop | leave | save | commit => trivial

theorem begins_callOk {s s' : St} {e : Ev} {call : Call} (hm : Meets deployment s (.queue e) s')
    (hb : Begins deployment e call) : CallOk deployment.service.culture s.db call := by
  cases hb with
  | importAsync contestId source imported hread =>
    obtain ⟨-, haccepted, hnumbers⟩ := readAsync_accepted _ _ hread
    exact ⟨haccepted, hnumbers, fun hacm => hm hacm imported hread⟩
  | tryCheckFromDB | retestAsync | retestCompilationErrorsAsync => trivial

theorem inv_queue (hculture : Separates deployment.service.culture) {s s' : St} {e : Ev} (h : Inv deployment s)
    (hm : Meets deployment s (.queue e) s') (hs : step deployment s e = some s') : Inv deployment s' := by
  obtain ⟨hkeeps, hscored⟩ := db_step hculture h hm hs
  have hgate := gate_step h.gate hs
  have hshape := shape_step h.shape hs
  refine ⟨hgate, hshape, hscored, ?_⟩
  refine calls_read (R := fun db _ call => CallOk deployment.service.culture db call) h.gate h.calls hs
    (fun _ _ hcall => hcall) (fun _ hbegins => begins_callOk hm hbegins)
    (fun _ _ hmove => callOk_move h hmove hkeeps) ?_
  intro call hholds hcall
  -- a plan is made in the gate
  exact hkeeps.call (fun plan heq => by rw [heq] at hholds; cases hholds) hcall

theorem planOk_post {culture : Domain.Culture} {db : Db} {plan : Plan} (post : Post)
    (hpost : ∃ problem ∈ db.problems.rows, problem.id = post.problemId) (h : PlanOk culture db plan) :
    PlanOk culture (db.insertSubmission posted post hpost) plan := by
  cases plan with
  | «import» tracker =>
    obtain ⟨contest, hcontest, imported, himporting, htracker⟩ := h
    exact ⟨contest, hcontest, imported, ⟨himporting.accepted, himporting.numbers, himporting.pays⟩, htracker⟩
  | retest | retestCompilationErrors => trivial

theorem inv_post {s : St} (post : Post) (hpost : ∃ problem ∈ s.db.problems.rows, problem.id = post.problemId)
    (h : Inv deployment s) : Inv deployment { s with db := s.db.insertSubmission posted post hpost } := by
  refine ⟨h.gate, h.shape, scored_post post hpost h.scored, fun b => ?_⟩
  have hcall := h.calls b
  show CallOk _ _ (s.call b)
  generalize s.call b = call at hcall
  by_cases hready : ∃ plan, call = .ready plan
  · obtain ⟨plan, rfl⟩ := hready
    exact planOk_post post hpost hcall
  · exact (keeps_post _ s.db post hpost).call (fun plan heq => hready ⟨plan, heq⟩) hcall

theorem inv_step (hculture : Separates deployment.service.culture) {s s' : St} {e : Event} (h : Inv deployment s)
    (hm : Meets deployment s e s') (hs : siteStep deployment s e = some s') : Inv deployment s' := by
  cases e with
  | queue e => exact inv_queue hculture h hm hs
  | post post =>
    simp only [siteStep] at hs
    split at hs
    · next hpost => cases hs; exact inv_post post hpost h
    · cases hs

theorem inv_init (deployment : Deployment) {db : Db} (h : Scored deployment.service.culture db) (now : Int) :
    Inv deployment (init db now) :=
  ⟨gate_init db now, fun a => shape_init db now a, h, fun _ => trivial⟩

end Steps

/-! ## The standings -/

/-- The contest that the standings load: its problems, with their submissions. -/
structure Loads (db : Db) (row : ContestRow) (contest : Domain.Contest) : Prop where
  abbr : contest.abbr = row.abbr
  problems : (contest.problems.map fun p => (p.id, p.number)).Perm
    ((db.problems.rows.filter (·.contestId == row.id)).map fun p => (p.id, p.number))
  submissions : ∀ problem ∈ contest.problems,
    (problem.submissions.map fun s => (s.id, s.statusCode, s.commitTime, s.score)).Perm
      ((db.submissions.rows.filter (·.problemId == problem.id)).map
        fun x => (x.id, x.statusCode, x.commitTime, x.score))

/-- A cell that is solved, or costs time. -/
def Counts (culture : Domain.Culture) (ms : Domain.Standing.Milliseconds) (contest : Domain.Contest)
    (startTime : Option Int) (cell : Domain.Standing.UserProblemResult) : Prop :=
  cell.isSuccess = true ∨ cell.summaryTime ms (Domain.IcpcRules.contestStart contest startTime)
    (Domain.Rows.penaltyOf culture contest) ≠ ms.zero

/-- In the standings of an ACM contest only an acceptance solves a problem. -/
def Law (culture : Domain.Culture) (s : St) : Prop :=
  ∀ row ∈ s.db.contests.rows, IsAcm culture row → ∀ contest, Loads s.db row contest →
    ∀ ms now includeAll official notFreeze startTime rows,
      Domain.Standing.newStanding culture ms now contest includeAll official notFreeze startTime = .ok rows →
      ∀ result ∈ rows, ∀ cell ∈ result.problemResults, Counts culture ms contest startTime cell →
        ∃ submission ∈ cell.problem.submissions,
          Domain.IcpcRules.counts now contest notFreeze startTime submission = true ∧
            submission.userId = result.user.id ∧ submission.statusCode = 2

section Law

variable {culture : Domain.Culture} {db : Db} {row : ContestRow} {contest : Domain.Contest}

theorem Loads.acmProblem (h : Loads db row contest) (hrow : row ∈ db.contests.rows) (hacm : IsAcm culture row)
    {problem : Domain.Problem} (hproblem : problem ∈ contest.problems) : AcmProblem culture db problem.id := by
  have hmem := h.problems.mem_iff.mp (List.mem_map_of_mem hproblem)
  obtain ⟨p, hp, heq⟩ := List.mem_map.mp hmem
  obtain ⟨hp, hcontest⟩ := List.mem_filter.mp hp
  exact ⟨p, hp, (Prod.mk.inj heq).1, row, hrow, (beq_iff_eq.mp hcontest).symm, hacm⟩

/-- A judged submission of the contest that succeeds is accepted. -/
theorem Loads.accepted (h : Loads db row contest) (hscored : Scored culture db) (hrow : row ∈ db.contests.rows)
    (hacm : IsAcm culture row) {problem : Domain.Problem} (hproblem : problem ∈ contest.problems)
    {submission : Domain.Submission} (hsubmission : submission ∈ problem.submissions)
    (hjudged : Domain.Standing.isJudged submission = true)
    (hsuccess : Domain.Standing.isSuccessful submission = true) : submission.statusCode = 2 := by
  have hmem := (h.submissions problem hproblem).mem_iff.mp (List.mem_map_of_mem hsubmission)
  obtain ⟨x, hx, heq⟩ := List.mem_map.mp hmem
  obtain ⟨hx, hpid⟩ := List.mem_filter.mp hx
  simp only [Prod.mk.injEq] at heq
  obtain ⟨-, hcode, -, hscore⟩ := heq
  have hearned := hscored.submissions x hx (beq_iff_eq.mp hpid ▸ h.acmProblem hrow hacm hproblem)
  unfold ScoreEarned at hearned
  rw [hcode, hscore] at hearned
  simp only [Domain.Standing.isJudged, Bool.and_eq_true, Bool.not_eq_true', beq_eq_false_iff_ne] at hjudged
  simp only [Domain.Standing.isSuccessful, Bool.or_eq_true, beq_iff_eq] at hsuccess
  rcases hsuccess with htwo | hpos
  · exact htwo
  · cases hs : submission.score with
    | none => rw [hs] at hpos; cases hpos
    | some score =>
      rw [hs] at hpos
      rcases hearned score hs (of_decide_eq_true hpos) with hzero | hone | htwo
      · exact absurd hzero hjudged.1
      · exact absurd hone hjudged.2
      · exact htwo

theorem cell_accepted {s : St} (h : Scored culture s.db) : Law culture s := by
  intro row hrow hacm contest hloads ms now includeAll official notFreeze startTime rows hrows result hresult cell hcell
    hcounts
  obtain ⟨problem, hproblem, first, rfl⟩ :=
    Domain.Rows.cell_of_row culture ms now includeAll official notFreeze startTime hrows hresult hcell
  -- a cell that costs time is solved
  have hsome : (Domain.Standing.success (Domain.Standing.cellSubmissions now contest notFreeze
      (Domain.IcpcRules.contestStart contest startTime) result.user.id problem)).isSome = true := by
    rcases hcounts with hsolved | htime
    · exact hsolved
    · by_contra hnot
      exact htime (if_neg hnot)
  obtain ⟨submission, hsuccess⟩ := Option.isSome_iff_exists.mp hsome
  obtain ⟨hmem, hsuccessful⟩ := List.mem_filter.mp (mem_orderBy.mp (lastOrDefault_mem hsuccess))
  obtain ⟨hmem, hcounted⟩ :=
    List.mem_filter.mp ((Domain.Standing.standingSubmissions_perm now notFreeze _ _ hproblem).mem_iff.mp hmem)
  obtain ⟨hcounted, huser⟩ := Bool.and_eq_true_iff.mp hcounted
  have hjudged : Domain.Standing.isJudged submission = true := by
    simp only [Domain.Standing.isCounted, Bool.and_eq_true] at hcounted
    exact hcounted.1.2
  exact ⟨submission, hmem, (Domain.IcpcRules.counts_eq now notFreeze startTime submission).symm.trans hcounted,
    beq_iff_eq.mp huser,
    hloads.accepted h hrow hacm hproblem hmem hjudged hsuccessful⟩

end Law

/-- Throughout a run whose imports pay for the last test alone, and whose saves write
    the score. -/
theorem solved_is_accepted (deployment : Deployment) (hculture : Separates deployment.service.culture) {db : Db}
    (h : Scored deployment.service.culture db) (now : Int) (es : List Event)
    (hmeets : Along (siteStep deployment) (Meets deployment) (init db now) es) :
    Always (siteStep deployment) (Law deployment.service.culture) (init db now) es := by
  have hstep : ∀ s e s', Inv deployment s → Meets deployment s e s' → siteStep deployment s e = some s' →
      Inv deployment s' := fun _ _ _ hi hm hs => inv_step hculture hi hm hs
  have hinv := always_along hstep (inv_init deployment h now) hmeets
  exact hinv.mono fun _ hi => cell_accepted hi.scored

/-! ## An archive that pays for two tests -/

def acmDb : Db where
  contests := ⟨[⟨1, "acm"⟩], 2, by decide, by decide⟩
  compilators := ⟨[⟨1, "test", some "test 1", true⟩], 2, Queue.sampleDb.compilators.below,
    Queue.sampleDb.compilators.keys⟩
  checkers := [4]
  problems := .empty 1
  nextTest := 1
  submissions := .empty 1
  checkResults := []
  submissions_of := by decide

def acmDeployment (scores : List (Int × Int)) : Deployment where
  service := ⟨Domain.Culture.ordinal, {},
    ⟨.asciiOnly, fun _ => .ok (some { Scores.sampleManifest with scores := some scores })⟩, [4]⟩
  platform := Verdict.samplePlatform

/-- An import, and a submission that passes the first test only. -/
def importThenCheck : List Event :=
  [.queue (.importAsync 1 (.ok Scores.sampleEntries)), .queue (.enter 0), .queue (.prepare 0), .queue (.commit 0),
    .queue (.leave 0), .post ⟨"source", 1, 1, 0, 0⟩] ++ (claimed 1 ++ checked 1 .completed).map .queue

def loadedProblem : Domain.Problem :=
  ⟨1, 1, [⟨1, -1002, false, 0, some 30, Domain.IcpcRules.sampleUser, 1⟩], by decide⟩

def loadedContest : Domain.Contest where
  abbr := "acm"
  startTime := 0
  endTime := 300 * Domain.ticksPerMinute
  freezeTime := none
  problems := [loadedProblem]
  competitors := [⟨Domain.IcpcRules.sampleUser, ⟨true, false⟩, Domain.IcpcRules.sampleUser_competes⟩]
  problem_ids := by decide
  problem_count := by decide

theorem scored_acmDb (culture : Domain.Culture) : Scored culture acmDb :=
  ⟨fun _ h => (nomatch h), fun _ h => (nomatch h)⟩

theorem separates_ordinal : Separates .ordinal := by
  intro abbr hacm
  simp only [Domain.Culture.ordinal, List.isPrefixOf_iff_prefix] at hacm
  obtain ⟨rest, hrest⟩ := hacm
  simp only [Domain.Culture.ordinal, ← hrest]
  rfl

theorem sample_solved :
    Always (siteStep (acmDeployment [(2, 100)])) (Law .ordinal) (init acmDb 0) importThenCheck :=
  solved_is_accepted (acmDeployment [(2, 100)]) separates_ordinal (scored_acmDb _) 0 importThenCheck (by decide +kernel)

/-- With scores for both tests the submission that failed the second one solves the problem. -/
theorem a_failed_submission_solves :
    Scored .ordinal acmDb ∧
      ¬Always (siteStep (acmDeployment [(1, 30), (2, 70)])) (Law .ordinal) (init acmDb 0) importThenCheck := by
  refine ⟨scored_acmDb _, fun halways => ?_⟩
  have hrow : (⟨1, "acm"⟩ : ContestRow) ∈
      (final (siteStep (acmDeployment [(1, 30), (2, 70)])) (init acmDb 0) importThenCheck).db.contests.rows := by
    decide +kernel
  have hloads : Loads (final (siteStep (acmDeployment [(1, 30), (2, 70)])) (init acmDb 0) importThenCheck).db
      ⟨1, "acm"⟩ loadedContest := ⟨rfl, by decide +kernel, by decide +kernel⟩
  have hrows : Domain.Standing.newStanding .ordinal .exact 0 loadedContest false false false none =
      .ok [⟨Domain.IcpcRules.sampleUser, 30, 0, 0, [⟨loadedProblem, true, 1, 0, false, 30, 100⟩]⟩] := rfl
  obtain ⟨submission, hmem, -, -, hcode⟩ := halways.last _ hrow (by decide) loadedContest hloads .exact 0 false false
    false none _ hrows _ List.mem_cons_self _ List.mem_cons_self (Or.inl rfl)
  rw [List.mem_singleton.mp hmem] at hcode
  cases hcode

end OlympSystem.Site.AcmScores
