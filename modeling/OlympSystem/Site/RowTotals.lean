/-
  OlympSystem.Site.RowTotals — whether the scores of a row add up.

  `ReadAsync` rejects an archive in which the scores of one problem leave `int`, but
  `NewStanding` adds them over all problems of a contest, in checked `int`. Here a contest
  is followed from its first import: `caps` says how much an archive may give each problem
  number, and `Affordable` that it does not leave `int` in all.

  Proved:
  - `check_priced`: a check gives at most what its tests are worth in all.
  - `inv_step`: as long as imports keep to the caps, every problem has at most its cap, and
    so has every submission of it.
  - `totals_fit`: then no row of the contest's standings overflows, throughout every run.
  - `two_problems_overflow`: two archives that are each accepted, and a row that throws.
-/

import Mathlib.Algebra.Order.BigOperators.Group.List
import OlympSystem.Site.AcmScores

namespace OlympSystem.Site.RowTotals

open Lib.Runs Lib.Tables Lib.Query Lib.Program Lib.Checked OlympSystem.Checker ProblemArchive CheckerManager Queue
open AcmScores (Event Post posted siteStep Loads activeScores activeScores_imported)

/-! ## What a check gives -/

/-- Scores that are not negative and give at most `cap` in all. -/
def PricedAt (cap : Int) (scores : List (Option Int)) : Prop :=
  (∀ score ∈ scores, 0 ≤ score.getD 0) ∧ (scores.map (·.getD 0)).sum ≤ cap

def Affords (cap : Int) (score : Option Int) : Prop := ∀ n ∈ score, 0 ≤ n ∧ n ≤ cap

theorem priced_sublist {cap : Int} {scores : List (Option Int)} (h : PricedAt cap scores) {paid : List (Option Int)}
    (hsub : paid.Sublist scores) : 0 ≤ (paid.map (·.getD 0)).sum ∧ (paid.map (·.getD 0)).sum ≤ cap := by
  have hnonneg : ∀ n ∈ scores.map (·.getD 0), 0 ≤ n := by
    intro n hn
    obtain ⟨score, hscore, rfl⟩ := List.mem_map.mp hn
    exact h.1 score hscore
  have hle := sum_le_of_sublist (hsub.map (·.getD 0)) hnonneg
  have hpaid := sum_nonneg fun n hn => hnonneg n ((hsub.map _).subset hn)
  exact ⟨hpaid, hle.trans h.2⟩

/-- The score of a check is that of some of its tests. -/
theorem check_priced {svc : CheckerService} {platform : Platform} {request : CheckRequest} {elapsed : TimeSpan}
    {fields : Fields} {answers : Verdict.Answers} {result : CheckerResult} {cap : Int}
    (hpriced : PricedAt cap (request.tests.map (·.score)))
    (h : (Prog.solo (svc.check platform request elapsed) fields answers).result = .ok result) :
    Affords cap result.score := by
  obtain ⟨havail, hsup, compileResult, h0⟩ := Verdict.check_available platform elapsed h
  intro n hn
  rw [Option.mem_def] at hn
  by_cases hc : compileResult.status = .completed
  · obtain ⟨checker, runs, -, ⟨rest, htests, -⟩, -, -, -, hscored⟩ := Verdict.check_scored platform elapsed h0 hc h
    have hpays : ∃ test ∈ request.tests, test.score ≠ none := by
      by_contra hnone
      have hnull := (hscored.nulls.mpr fun test htest => by_contra fun hs => hnone ⟨test, htest, hs⟩).1
      rw [hnull] at hn
      cases hn
    rw [hscored.score hpays] at hn
    have hsub : ((runs.filter (·.verdict = .accepted)).map (·.test.score)).Sublist (request.tests.map (·.score)) := by
      rw [htests, List.map_append, List.map_map]
      exact (List.filter_sublist.map _).trans (List.sublist_append_left _ _)
    have hbounds := priced_sublist hpriced hsub
    rw [List.map_map] at hbounds
    obtain rfl := Option.some.inj hn
    exact hbounds
  · rw [Verdict.solo_compiled platform elapsed havail hsup h0, if_pos hc] at h
    cases h
    cases hn

/-! ## The condition -/

/-- The most that a version of a problem gives: its scores in all, and the point of an
    acceptance without a score. -/
def worth (isSchool : Bool) (item : ImportedProblem) : Int :=
  max 1 ((importedTests isSchool item).map (·.score.getD 0)).sum

/-- No set of problem numbers is worth more than an `int` holds. -/
def Affordable (caps : Int → Int) : Prop := ∀ numbers : List Int, numbers.Nodup → (numbers.map caps).sum ≤ int32Max

/-- Archives imported into the contest keep to the caps. -/
def Meets (deployment : Deployment) (contestId : Int) (caps : Int → Int) (s : St) : Event → St → Prop
  | .queue (.importAsync id source), _ => id = contestId →
    ∀ imported, readAsync deployment.service.options deployment.service.runtime source = .ok imported →
      ∀ contest ∈ s.db.contests.rows, contest.id = contestId →
        ∀ item ∈ imported, worth (contest.isSchool deployment.service.culture) item ≤ caps item.manifest.number
  | _, _ => True

/-- A condition on what is returned. -/
instance decidableReturned {α : Type} (x : Except Exn α) (p : α → Prop) [DecidablePred p] :
    Decidable (∀ a, x = .ok a → p a) :=
  match x with
  | .error _ => isTrue fun _ h => (nomatch h)
  | .ok a => decidable_of_iff (p a) ⟨fun h _ he => Except.ok.inj he ▸ h, fun h => h a rfl⟩

instance (deployment : Deployment) (contestId : Int) (caps : Int → Int) (s : St) (e : Event) (s' : St) :
    Decidable (Meets deployment contestId caps s e s') := by
  cases e with
  | queue e =>
    cases e with
    | importAsync id source =>
      exact inferInstanceAs (Decidable (id = contestId →
        ∀ imported, readAsync deployment.service.options deployment.service.runtime source = .ok imported →
          ∀ contest ∈ s.db.contests.rows, contest.id = contestId →
            ∀ item ∈ imported, worth (contest.isSchool deployment.service.culture) item ≤ caps item.manifest.number))
    | _ => exact isTrue trivial
  | _ => exact isTrue trivial

/-! ## The invariant -/

section Invariant

variable (culture : Domain.Culture) (contestId : Int) (caps : Int → Int) (db : Db)

/-- The problems of the contest have different numbers, and they and their submissions keep
    to the caps. -/
structure Within : Prop where
  numbers : ((db.problems.rows.filter (·.contestId == contestId)).map ProblemRow.number).Nodup
  problems : ∀ problem ∈ db.problems.rows, problem.contestId = contestId →
    1 ≤ caps problem.number ∧ PricedAt (caps problem.number) (activeScores problem)
  submissions : ∀ x ∈ db.submissions.rows, ∀ problem ∈ db.problems.rows, problem.id = x.problemId →
    problem.contestId = contestId → Affords (caps problem.number) x.score

/-- What a check has loaded is still of that problem, and its tests keep to the cap. -/
structure LoadedOk (loaded : Loaded) : Prop where
  submission : ∃ x ∈ db.submissions.rows, x.id = loaded.submission.id ∧ x.problemId = loaded.problem.id
  problem : ∃ problem ∈ db.problems.rows, problem.id = loaded.problem.id ∧
    problem.contestId = loaded.problem.contestId ∧ problem.number = loaded.problem.number
  priced : loaded.problem.contestId = contestId →
    PricedAt (caps loaded.problem.number) (loaded.tests.map (·.content.score))

structure Importing (id : Int) (imported : List ImportedProblem) : Prop where
  accepted : ∀ item ∈ imported, Accepted item
  numbers : (imported.map (·.manifest.number)).Nodup
  within : id = contestId → ∀ contest ∈ db.contests.rows, contest.id = contestId →
    ∀ item ∈ imported, worth (contest.isSchool culture) item ≤ caps item.manifest.number

def OperationOk : Operation → Prop
  | .import id imported => Importing culture contestId caps db id imported
  | _ => True

def PlanOk : Plan → Prop
  | .import tracker => ∃ contest ∈ db.contests.rows, ∃ imported,
      Importing culture contestId caps db contest.id imported ∧
        tracker = ImportLaw.importedTracker (contest.isSchool culture) contest.id db imported
  | _ => True

def CallOk : Call → Prop
  | .waiting operation | .reading operation => OperationOk culture contestId caps db operation
  | .ready plan => PlanOk culture contestId caps db plan
  | .claiming _ loaded _ _ => LoadedOk contestId caps db loaded
  | .claimed check | .judging check | .judged check | .saving check | .committing check =>
    LoadedOk contestId caps db check.loaded
  | _ => True

end Invariant

structure Inv (deployment : Deployment) (contestId : Int) (caps : Int → Int) (s : St) : Prop where
  gate : GateHeld s
  shape : ∀ a, Shape deployment (s.call a)
  within : Within contestId caps s.db
  calls : ∀ a, CallOk deployment.service.culture contestId caps s.db (s.call a)

/-! ## What writes keep -/

structure Stays (db db' : Db) : Prop where
  contests : db'.contests = db.contests
  submissions : ∀ x ∈ db.submissions.rows, ∃ x' ∈ db'.submissions.rows, x'.id = x.id ∧ x'.problemId = x.problemId
  problems : ∀ problem ∈ db.problems.rows, ∃ problem' ∈ db'.problems.rows, problem'.id = problem.id ∧
    problem'.contestId = problem.contestId ∧ problem'.number = problem.number

section Stays

variable {culture : Domain.Culture} {contestId : Int} {caps : Int → Int} {db db' : Db}

theorem Stays.refl (db : Db) : Stays db db :=
  ⟨rfl, fun x hx => ⟨x, hx, rfl, rfl⟩, fun problem hp => ⟨problem, hp, rfl, rfl, rfl⟩⟩

theorem stays_updateSubmissions (db : Db) (u : SubmissionUpdate) : Stays db (db.updateSubmissions u) :=
  ⟨rfl, fun x hx => ⟨u.apply x, List.mem_map_of_mem hx, u.keeps x, u.problem x⟩,
    fun problem hp => ⟨problem, hp, rfl, rfl, rfl⟩⟩

theorem stays_saveChanges (db : Db) (check : Check) : Stays db (check.saveChanges db) := by
  have h := stays_updateSubmissions db (check.writeUpdate.restrict (·.id == check.original.id))
  unfold Check.saveChanges
  cases check.result with
  | none => exact h
  | some row => exact ⟨h.contests, h.submissions, h.problems⟩

theorem stays_post (db : Db) (post : Post) (h : ∃ problem ∈ db.problems.rows, problem.id = post.problemId) :
    Stays db (db.insertSubmission posted post h) :=
  ⟨rfl, fun x hx => ⟨x, List.mem_append_left _ hx, rfl, rfl⟩, fun problem hp => ⟨problem, hp, rfl, rfl, rfl⟩⟩

theorem Stays.loaded (h : Stays db db') {loaded : Loaded} (hl : LoadedOk contestId caps db loaded) :
    LoadedOk contestId caps db' loaded := by
  obtain ⟨x, hx, hid, hproblem⟩ := hl.submission
  obtain ⟨x', hx', hid', hproblem'⟩ := h.submissions x hx
  obtain ⟨problem, hp, hpid, hcontest, hnumber⟩ := hl.problem
  obtain ⟨problem', hp', hpid', hcontest', hnumber'⟩ := h.problems problem hp
  exact ⟨⟨x', hx', hid'.trans hid, hproblem'.trans hproblem⟩,
    ⟨problem', hp', hpid'.trans hpid, hcontest'.trans hcontest, hnumber'.trans hnumber⟩, hl.priced⟩

theorem Stays.importing (h : Stays db db') {id : Int} {imported : List ImportedProblem}
    (hi : Importing culture contestId caps db id imported) : Importing culture contestId caps db' id imported :=
  ⟨hi.accepted, hi.numbers, h.contests ▸ hi.within⟩

/-- Calls that have no plan keep what they hold of the database. -/
theorem Stays.call (h : Stays db db') {call : Call} (hready : ∀ plan, call ≠ .ready plan)
    (hcall : CallOk culture contestId caps db call) : CallOk culture contestId caps db' call := by
  cases call with
  | waiting operation | reading operation =>
    cases operation with
    | «import» id imported => exact h.importing hcall
    | retest | retestCompilationErrors => trivial
  | ready plan => exact absurd rfl (hready plan)
  | claiming checker loaded span at_ => exact h.loaded hcall
  | claimed check | judging check | judged check | saving check | committing check => exact h.loaded hcall
  | «over» | entering | picking | leaving => trivial

/-- What a check loaded is what its submission's row still belongs to. -/
theorem LoadedOk.of_row {loaded : Loaded} (h : LoadedOk contestId caps db loaded) {x : SubmissionRow}
    (hx : x ∈ db.submissions.rows) (hid : x.id = loaded.submission.id) {problem : ProblemRow}
    (hp : problem ∈ db.problems.rows) (hpid : problem.id = x.problemId) :
    problem.contestId = loaded.problem.contestId ∧ problem.number = loaded.problem.number := by
  obtain ⟨x', hx', hid', hproblem⟩ := h.submission
  obtain ⟨problem', hp', hpid', hcontest, hnumber⟩ := h.problem
  obtain rfl : x' = x := Table.row_unique hx' hx (hid'.trans hid.symm)
  obtain rfl : problem' = problem := Table.row_unique hp' hp (by rw [hpid', hpid, hproblem])
  exact ⟨hcontest, hnumber⟩

end Stays

/-! ## Updates of submissions -/

section Updates

variable {contestId : Int} {caps : Int → Int} {db : Db}

theorem within_updateSubmissions (u : SubmissionUpdate) (h : Within contestId caps db)
    (hu : ∀ x ∈ db.submissions.rows, ∀ problem ∈ db.problems.rows, problem.id = x.problemId →
      problem.contestId = contestId → Affords (caps problem.number) (u.apply x).score) :
    Within contestId caps (db.updateSubmissions u) := by
  refine ⟨h.numbers, h.problems, fun x hx problem hp hid hcontest => ?_⟩
  obtain ⟨y, hy, rfl⟩ := List.mem_map.mp hx
  rw [u.problem] at hid
  exact hu y hy problem hp hid hcontest

/-- An update that leaves the score or takes it away. -/
theorem within_restrict (u : SubmissionUpdate) (p : SubmissionRow → Bool)
    (hu : ∀ x, (u.apply x).score = x.score ∨ (u.apply x).score = none) (h : Within contestId caps db) :
    Within contestId caps (db.updateSubmissions (u.restrict p)) := by
  refine within_updateSubmissions _ h fun x hx problem hp hid hcontest => ?_
  have hscore := h.submissions x hx problem hp hid hcontest
  rcases ResultAgreement.restrict_cases u p x with he | he
  · rw [he]; exact hscore
  · rw [he]
    rcases hu x with heq | hnone
    · rw [heq]; exact hscore
    · rw [hnone]; exact fun _ hn => (nomatch hn)

theorem within_requeue (now : Int) (p : SubmissionRow → Bool) (h : Within contestId caps db) :
    Within contestId caps (db.updateSubmissions ((requeue now).restrict p)) :=
  within_restrict _ p (fun _ => Or.inr rfl) h

variable {deployment : Deployment} {check : Check}

/-- A result that is saved keeps to the cap of the tests that were loaded. -/
theorem returned_priced {row : CheckResultRow} (hs : Succeeded deployment check row) {cap : Int}
    (hpriced : PricedAt cap (check.loaded.tests.map (·.content.score))) : Affords cap row.score := by
  obtain ⟨answers, elapsed, hchecked⟩ := hs.checked
  obtain ⟨request, hrequest, hresult⟩ := Check.outcome_ok hchecked
  refine check_priced ?_ hresult
  rw [(createCheckRequest_made hrequest).tests, List.map_map]
  exact hpriced

/-- The score after a save is the stored one, or that of a result. -/
theorem saved_score (he : Ended deployment check) (x : SubmissionRow) : (check.write x).score = x.score ∨
    ∃ row, Succeeded deployment check row ∧ (check.write x).score = row.score := by
  by_cases heq : check.current.score = check.original.score
  · exact Or.inl (if_pos heq)
  · rcases he with hf | ⟨row, hrow⟩
    · exact absurd hf.score heq
    · exact Or.inr ⟨row, hrow, (if_neg heq).trans hrow.score⟩

theorem within_save (ha : Attached check) (he : Ended deployment check) (hl : LoadedOk contestId caps db check.loaded)
    (h : Within contestId caps db) : Within contestId caps (check.saveChanges db) := by
  have hupdate : Within contestId caps
      (db.updateSubmissions (check.writeUpdate.restrict (·.id == check.original.id))) := by
    refine within_updateSubmissions _ h fun x hx problem hp hid hcontest => ?_
    rw [ResultAgreement.write_cases]
    by_cases hxid : x.id = check.original.id
    · rw [if_pos hxid]
      rcases saved_score he x with hstored | ⟨row, hrow, hscore⟩
      · rw [hstored]
        exact h.submissions x hx problem hp hid hcontest
      · have hloaded : x.id = check.loaded.submission.id := by rw [hxid, ha.original]
        obtain ⟨hsame, hnumber⟩ := hl.of_row hx hloaded hp hid
        rw [hscore, hnumber]
        exact returned_priced hrow (hl.priced (hsame.symm.trans hcontest))
    · rw [if_neg hxid]
      exact h.submissions x hx problem hp hid hcontest
  unfold Check.saveChanges
  cases check.result with
  | none => exact hupdate
  | some row => exact ⟨hupdate.numbers, hupdate.problems, hupdate.submissions⟩

theorem within_post (post : Post) (hpost : ∃ problem ∈ db.problems.rows, problem.id = post.problemId)
    (h : Within contestId caps db) : Within contestId caps (db.insertSubmission posted post hpost) := by
  refine ⟨h.numbers, h.problems, fun x hx problem hp hid hcontest => ?_⟩
  rcases List.mem_append.mp hx with hx | hx
  · exact h.submissions x hx problem hp hid hcontest
  · rw [List.mem_singleton.mp hx]
    exact fun _ hn => (nomatch hn)

end Updates

/-! ## Imports -/

section Imports

variable {culture : Domain.Culture} {contestId : Int} {caps : Int → Int} {db : Db} {contest : ContestRow}
  {imported : List ImportedProblem}

/-- The tests of an imported problem are worth what the archive gives. -/
theorem priced_imported {isSchool : Bool} {item : ImportedProblem} (h : Accepted item) {row : ProblemRow}
    (hcontent : ImportLaw.HasContent isSchool item row) {cap : Int} (hworth : worth isSchool item ≤ cap) :
    1 ≤ cap ∧ PricedAt cap (activeScores row) := by
  unfold worth at hworth
  obtain ⟨hnonneg, -⟩ := Scores.importedScores_total h isSchool
  rw [activeScores_imported h hcontent]
  refine ⟨by omega, ?_, ?_⟩
  · intro score hscore
    obtain ⟨test, htest, rfl⟩ := List.mem_map.mp hscore
    exact hnonneg _ (List.mem_map_of_mem htest)
  · rw [List.map_map]
    exact le_trans (le_max_right _ _) hworth

variable (hi : Importing culture contestId caps db contest.id imported)

include hi

theorem stays_import : Stays db
    (saveChanges db (ImportLaw.importedTracker (contest.isSchool culture) contest.id db imported)) := by
  obtain ⟨f, new, hrows⟩ := ImportLaw.imported_rows (contest.isSchool culture) contest.id db hi.numbers
  have hsame := ImportLaw.saveChanges_same db
    (ImportLaw.importedTracker (contest.isSchool culture) contest.id db imported)
  refine ⟨hsame.contests, fun x hx => ⟨x, hsame.submissions ▸ hx, rfl, rfl⟩, fun problem hp => ?_⟩
  obtain ⟨hid, hcontest, hnumber, -⟩ := hrows.kept hp
  exact ⟨f problem, hrows.mem_old hp, hid, hcontest, hnumber⟩

theorem numbers_import (h : Within contestId caps db) :
    (((saveChanges db (ImportLaw.importedTracker (contest.isSchool culture) contest.id db
      imported)).problems.rows.filter
      (·.contestId == contestId)).map ProblemRow.number).Nodup := by
  obtain ⟨f, new, hrows⟩ := ImportLaw.imported_rows (contest.isSchool culture) contest.id db hi.numbers
  have hkept : ((db.problems.rows.map f).filter (·.contestId == contestId)).map ProblemRow.number =
      (db.problems.rows.filter (·.contestId == contestId)).map ProblemRow.number := by
    have hfilter : db.problems.rows.filter ((·.contestId == contestId) ∘ f) =
        db.problems.rows.filter (·.contestId == contestId) := by
      refine List.filter_congr fun problem hp => ?_
      rw [Function.comp_apply, (hrows.kept hp).2.1]
    rw [List.filter_map, List.map_map, hfilter]
    exact List.map_congr_left fun problem hp => (hrows.kept (List.mem_filter.mp hp).1).2.2.1
  have hnew : ((new.filter (·.contestId == contestId)).map ProblemRow.number).Sublist
      ((ImportLaw.addedItems db contest.id imported).map (·.manifest.number)) := by
    rw [← ImportLaw.new_numbers hrows.new]
    exact List.filter_sublist.map _
  rw [hrows.rows, List.filter_append, List.map_append, hkept]
  refine List.nodup_append.mpr ⟨h.numbers, (hi.numbers.sublist (List.filter_sublist.map _)).sublist hnew, ?_⟩
  intro n hn m hm heq
  obtain ⟨problem, hp, hpn⟩ := List.mem_map.mp hn
  obtain ⟨row, hrow, hrown⟩ := List.mem_map.mp hm
  obtain ⟨hp, hcontest⟩ := List.mem_filter.mp hp
  obtain ⟨hrow, hcontest'⟩ := List.mem_filter.mp hrow
  obtain ⟨item, hitem, hisNew⟩ := (forall₂_exists hrows.new).2 row hrow
  obtain ⟨hcontent, hid, -⟩ := hisNew.content
  -- an added problem has a number that the contest did not have
  have hsame : problem.contestId = contest.id := by
    rw [← hid, beq_iff_eq.mp hcontest, beq_iff_eq.mp hcontest']
  refine (ImportLaw.mem_addedItems.mp hitem).2 problem hp hsame ?_
  rw [hpn, heq, ← hrown, hcontent.number]

theorem within_import (h : Within contestId caps db) (hcontest : contest ∈ db.contests.rows) : Within contestId caps
    (saveChanges db (ImportLaw.importedTracker (contest.isSchool culture) contest.id db imported)) := by
  have hnumbers := numbers_import hi h
  obtain ⟨f, new, hrows⟩ := ImportLaw.imported_rows (contest.isSchool culture) contest.id db hi.numbers
  have hsame := ImportLaw.saveChanges_same db
    (ImportLaw.importedTracker (contest.isSchool culture) contest.id db imported)
  -- a problem of the contest with the content of the archive
  have hpriced : ∀ row : ProblemRow, ∀ item ∈ imported, contest.id = contestId →
      ImportLaw.HasContent (contest.isSchool culture) item row →
      1 ≤ caps row.number ∧ PricedAt (caps row.number) (activeScores row) := by
    intro row item hitem hid hcontent
    refine priced_imported (hi.accepted item hitem) hcontent ?_
    rw [hcontent.number]
    exact hi.within hid contest hcontest hid item hitem
  refine ⟨hnumbers, fun row hrow hid => ?_, fun x hx row hrow hid hid' => ?_⟩
  · rcases hrows.cases hrow with ⟨old, hold, rfl⟩ | hnew
    · obtain ⟨-, hkept, -⟩ := hrows.kept hold
      by_cases hexisting : old ∈ ContestProblemService.existingProblems db contest.id imported
      · obtain ⟨item, hitem, -, next, hf⟩ := hrows.replaced old hexisting
        have hof := (ImportLaw.mem_existing.mp hexisting).2.1
        refine hpriced _ item hitem ?_ (hf ▸ ImportLaw.importedRow_content (contest.isSchool culture) item old next)
        rw [← hof, ← hkept, hid]
      · rw [hrows.other old hold hexisting] at hid ⊢
        exact h.problems old hold hid
    · obtain ⟨item, hitem, hisNew⟩ := (forall₂_exists hrows.new).2 row hnew
      obtain ⟨hcontent, hof, -⟩ := hisNew.content
      exact hpriced row item (ImportLaw.mem_addedItems.mp hitem).1 (hof.symm.trans hid) hcontent
  · rw [hsame.submissions] at hx
    rcases hrows.cases hrow with ⟨old, hold, rfl⟩ | hnew
    · obtain ⟨hkept, hkept', hnumber, -⟩ := hrows.kept hold
      rw [hnumber]
      exact h.submissions x hx old hold (hkept.symm.trans hid) (hkept'.symm.trans hid')
    · obtain ⟨item, -, hisNew⟩ := (forall₂_exists hrows.new).2 row hnew
      have hge := hisNew.1
      have hlt := Db.submission_problem_lt hx
      omega

end Imports

/-! ## Steps -/

section Steps

variable {deployment : Deployment} {contestId : Int} {caps : Int → Int}

/-- What a step of the queue makes of the database. -/
theorem db_step {s s' : St} {e : Ev} (h : Inv deployment contestId caps s) (hs : step deployment s e = some s') :
    Stays s.db s'.db ∧ Within contestId caps s'.db := by
  rcases step_writes hs with hw | ⟨hdb, -⟩
  · generalize s'.db = db at hw
    cases hw with
    | claim a checker loaded span at_ _ _ =>
      exact ⟨stays_updateSubmissions _ _, within_restrict _ _ (fun _ => Or.inl rfl) h.within⟩
    | save a check hc =>
      have hshape := h.shape a
      have hcall := h.calls a
      rw [hc] at hshape hcall
      exact ⟨stays_saveChanges _ _, within_save hshape.1 hshape.2 hcall h.within⟩
    | commit a plan hc =>
      have hcall := h.calls a
      rw [hc] at hcall
      cases plan with
      | «import» tracker =>
        obtain ⟨contest, hcontest, imported, himporting, rfl⟩ := hcall
        exact ⟨stays_import himporting, within_import himporting h.within hcontest⟩
      | retest problemId exceptAccepted =>
        exact ⟨stays_updateSubmissions _ _, within_requeue s.now _ h.within⟩
      | retestCompilationErrors problemIds =>
        exact ⟨stays_updateSubmissions _ _, within_requeue s.now _ h.within⟩
  · rw [hdb]
    exact ⟨Stays.refl _, h.within⟩

/-- A plan is made of what is there. -/
theorem planOk_prepare {service : ContestProblemService} {db : Db} {operation : Operation} {plan : Plan}
    (ho : OperationOk service.culture contestId caps db operation) (h : operation.prepare service db = .ok plan) :
    PlanOk service.culture contestId caps db plan := by
  cases plan with
  | «import» tracker =>
    obtain ⟨contest, hcontest, imported, rfl, rfl⟩ := ExclusiveJudging.prepare_import h
    exact ⟨contest, hcontest, imported, ho, rfl⟩
  | retest | retestCompilationErrors => trivial

/-- What a claim loads is what is there. -/
theorem loadedOk_pick {db : Db} {ids : List Int} {span id : Int} {loaded : Loaded} (h : Within contestId caps db)
    (hfirst : first (candidates db ids span) id = some loaded) : LoadedOk contestId caps db loaded := by
  obtain ⟨hjoined, hsubmission, -, hproblem, -⟩ := first_loaded hfirst
  refine ⟨⟨_, hsubmission, rfl, hjoined.problem.symm⟩, ⟨_, hproblem, rfl, rfl, rfl⟩, fun hcontest => ?_⟩
  rw [hjoined.tests]
  exact (h.problems _ hproblem hcontest).2

theorem callOk_move {s : St} {a : Nat} {call : Call} {db : Db} (h : Inv deployment contestId caps s)
    (hm : Move deployment s.db s.now (s.call a) call db) (hstays : Stays s.db db) :
    CallOk deployment.service.culture contestId caps db call := by
  have hcall := h.calls a
  generalize s.call a = before at hm hcall
  cases hm with
  | enterReading operation => exact hcall
  | prepare operation plan hplan => exact planOk_prepare hcall hplan
  | pick checker ids span id loaded hfirst => exact loadedOk_pick h.within hfirst
  | claim checker loaded span at_ _ => exact hstays.loaded hcall
  | leaveClaimed check => exact hcall
  | enterCommitting check => exact hcall
  | judge check answers elapsed =>
    show LoadedOk _ _ _ (check.judge deployment s.now answers elapsed).loaded
    rw [(judge_keeps check s.now answers elapsed).2]
    exact hcall
  | abort check => exact hcall
  | stamp check => exact hcall
  | cancel | enterPicking | drop | leave | save | commit => trivial

theorem begins_callOk {s s' : St} {e : Ev} {call : Call} (hm : Meets deployment contestId caps s (.queue e) s')
    (hb : Begins deployment e call) : CallOk deployment.service.culture contestId caps s.db call := by
  cases hb with
  | importAsync id source imported hread =>
    obtain ⟨-, haccepted, hnumbers⟩ := readAsync_accepted _ _ hread
    exact ⟨haccepted, hnumbers, fun hid => hm hid imported hread⟩
  | tryCheckFromDB | retestAsync | retestCompilationErrorsAsync => trivial

theorem inv_queue {s s' : St} {e : Ev} (h : Inv deployment contestId caps s)
    (hm : Meets deployment contestId caps s (.queue e) s') (hs : step deployment s e = some s') :
    Inv deployment contestId caps s' := by
  obtain ⟨hstays, hwithin⟩ := db_step h hs
  refine ⟨gate_step h.gate hs, shape_step h.shape hs, hwithin, ?_⟩
  refine calls_read (R := fun db _ call => CallOk deployment.service.culture contestId caps db call) h.gate h.calls hs
    (fun _ _ hcall => hcall) (fun _ hbegins => begins_callOk hm hbegins)
    (fun _ _ hmove => callOk_move h hmove hstays) ?_
  intro call hholds hcall
  exact hstays.call (fun plan heq => by rw [heq] at hholds; cases hholds) hcall

theorem inv_post {s : St} (post : Post) (hpost : ∃ problem ∈ s.db.problems.rows, problem.id = post.problemId)
    (h : Inv deployment contestId caps s) :
    Inv deployment contestId caps { s with db := s.db.insertSubmission posted post hpost } := by
  have hstays := stays_post s.db post hpost
  refine ⟨h.gate, h.shape, within_post post hpost h.within, fun b => ?_⟩
  have hcall := h.calls b
  show CallOk _ _ _ _ (s.call b)
  generalize s.call b = call at hcall
  by_cases hready : ∃ plan, call = .ready plan
  · obtain ⟨plan, rfl⟩ := hready
    cases plan with
    | «import» tracker =>
      -- the tracker was made of contests and problems alone
      obtain ⟨contest, hcontest, imported, himporting, htracker⟩ := hcall
      exact ⟨contest, hcontest, imported, hstays.importing himporting, htracker⟩
    | retest | retestCompilationErrors => trivial
  · exact hstays.call (fun plan heq => hready ⟨plan, heq⟩) hcall

theorem inv_step {s s' : St} {e : Event} (h : Inv deployment contestId caps s)
    (hm : Meets deployment contestId caps s e s') (hs : siteStep deployment s e = some s') :
    Inv deployment contestId caps s' := by
  cases e with
  | queue e => exact inv_queue h hm hs
  | post post =>
    simp only [siteStep] at hs
    split at hs
    · next hpost => cases hs; exact inv_post post hpost h
    · cases hs

/-- A contest without problems. -/
theorem within_empty {db : Db} (h : ∀ problem ∈ db.problems.rows, problem.contestId ≠ contestId) :
    Within contestId caps db := by
  refine ⟨?_, fun problem hp hid => absurd hid (h problem hp), fun _ _ problem hp _ hid => absurd hid (h problem hp)⟩
  have hnone : db.problems.rows.filter (·.contestId == contestId) = [] := by
    rw [List.filter_eq_nil_iff]
    intro problem hp
    simpa using h problem hp
  rw [hnone]
  exact List.nodup_nil

end Steps

/-! ## The rows -/

/-- No row of the contest's standings leaves `int`, whoever's it is. -/
def Law (contestId : Int) (s : St) : Prop :=
  ∀ row ∈ s.db.contests.rows, row.id = contestId → ∀ contest, Loads s.db row contest →
    ∀ now notFreeze startTime user, ¬Domain.Rows.ScoreOverflows now contest notFreeze startTime user

section Law

variable {caps : Int → Int} {db : Db} {row : ContestRow} {contest : Domain.Contest}

/-- The row of a problem that was loaded. -/
theorem loaded_row (h : Loads db row contest) {problem : Domain.Problem} (hp : problem ∈ contest.problems) :
    ∃ stored ∈ db.problems.rows, stored.id = problem.id ∧ stored.number = problem.number ∧
      stored.contestId = row.id := by
  have hmem := h.problems.mem_iff.mp (List.mem_map_of_mem hp)
  obtain ⟨stored, hstored, heq⟩ := List.mem_map.mp hmem
  obtain ⟨hstored, hcontest⟩ := List.mem_filter.mp hstored
  exact ⟨stored, hstored, (Prod.mk.inj heq).1, (Prod.mk.inj heq).2, beq_iff_eq.mp hcontest⟩

theorem affords_loaded (hwithin : Within row.id caps db) (h : Loads db row contest) {problem : Domain.Problem}
    (hp : problem ∈ contest.problems) {submission : Domain.Submission} (hs : submission ∈ problem.submissions) :
    Affords (caps problem.number) submission.score := by
  obtain ⟨stored, hstored, hid, hnumber, hcontest⟩ := loaded_row h hp
  have hmem := (h.submissions problem hp).mem_iff.mp (List.mem_map_of_mem hs)
  obtain ⟨x, hx, heq⟩ := List.mem_map.mp hmem
  obtain ⟨hx, hpid⟩ := List.mem_filter.mp hx
  simp only [Prod.mk.injEq] at heq
  obtain ⟨-, -, -, hscore⟩ := heq
  rw [← hscore, ← hnumber]
  exact hwithin.submissions x hx stored hstored (hid.trans (beq_iff_eq.mp hpid).symm) hcontest

variable (now : Int) (notFreeze : Bool) (startTime : Option Int) (user : Domain.User)

theorem cell_affords (hwithin : Within row.id caps db) (h : Loads db row contest) {problem : Domain.Problem}
    (hp : problem ∈ contest.problems) : 0 ≤ (Domain.Rows.cellOf now contest notFreeze startTime user problem).score ∧
      (Domain.Rows.cellOf now contest notFreeze startTime user problem).score ≤ caps problem.number := by
  obtain ⟨stored, hstored, -, hnumber, hcontest⟩ := loaded_row h hp
  have hpoint := (hwithin.problems stored hstored hcontest).1
  rw [hnumber] at hpoint
  show 0 ≤ Domain.Standing.cellScore (Domain.Standing.success _) ∧
    Domain.Standing.cellScore (Domain.Standing.success _) ≤ caps problem.number
  cases hsuccess : Domain.Standing.success (Domain.Standing.cellSubmissions now contest notFreeze
      (Domain.IcpcRules.contestStart contest startTime) user.id problem) with
  | none =>
    simp only [Domain.Standing.cellScore]
    omega
  | some submission =>
    have hmem := (Domain.Standing.success_mem hsuccess).1
    have hcounted := (Domain.Standing.standingSubmissions_perm now notFreeze _ _ hp).mem_iff.mp hmem
    have haffords := affords_loaded hwithin h hp (List.mem_filter.mp hcounted).1
    simp only [Domain.Standing.cellScore]
    cases hscore : submission.score with
    | none =>
      simp only [Option.getD_none]
      omega
    | some n => exact haffords n hscore

/-- The numbers of the problems that were loaded are different. -/
theorem loaded_numbers (hwithin : Within row.id caps db) (h : Loads db row contest) :
    ((Domain.Standing.standingProblems contest).map Domain.Problem.number).Nodup := by
  have hperm := h.problems.map Prod.snd
  rw [List.map_map, List.map_map] at hperm
  have hnodup : (contest.problems.map Domain.Problem.number).Nodup := hperm.nodup_iff.mpr hwithin.numbers
  exact ((orderBy_perm _ _).map _).nodup_iff.mpr hnodup

theorem row_fits (haffordable : Affordable caps) (hwithin : Within row.id caps db) (h : Loads db row contest) :
    ¬Domain.Rows.ScoreOverflows now contest notFreeze startTime user := by
  have hcells := fun problem (hp : problem ∈ Domain.Standing.standingProblems contest) =>
    cell_affords now notFreeze startTime user hwithin h (mem_orderBy.mp hp)
  have hle : ((Domain.Standing.standingProblems contest).map fun problem =>
      (Domain.Rows.cellOf now contest notFreeze startTime user problem).score).sum ≤ int32Max := by
    calc _ ≤ ((Domain.Standing.standingProblems contest).map fun problem => caps problem.number).sum :=
          List.sum_le_sum fun problem hp => (hcells problem hp).2
      _ = (((Domain.Standing.standingProblems contest).map Domain.Problem.number).map caps).sum := by
          rw [List.map_map]; rfl
      _ ≤ int32Max := haffordable _ (loaded_numbers hwithin h)
  unfold Domain.Rows.ScoreOverflows
  rw [show sumInt32 _ = _ from checkedSum_of_nonneg (fun n hn => ?_) (by decide) hle]
  · exact Option.some_ne_none _
  · obtain ⟨problem, hp, rfl⟩ := List.mem_map.mp hn
    exact (hcells problem hp).1

end Law

/-- Throughout a run that starts without problems of the contest, and whose imports keep
    to caps that an `int` affords. -/
theorem totals_fit (deployment : Deployment) (contestId : Int) {caps : Int → Int} (haffordable : Affordable caps)
    {db : Db} (hempty : ∀ problem ∈ db.problems.rows, problem.contestId ≠ contestId) (now : Int) (es : List Event)
    (hmeets : Along (siteStep deployment) (Meets deployment contestId caps) (init db now) es) :
    Always (siteStep deployment) (Law contestId) (init db now) es := by
  have hstep : ∀ s e s', Inv deployment contestId caps s → Meets deployment contestId caps s e s' →
      siteStep deployment s e = some s' → Inv deployment contestId caps s' := fun _ _ _ hi hm hs => inv_step hi hm hs
  have hinit : Inv deployment contestId caps (init db now) :=
    ⟨gate_init db now, fun a => shape_init db now a, within_empty hempty, fun _ => trivial⟩
  refine (always_along hstep hinit hmeets).mono fun s hi row _ hid contest hloads now notFreeze startTime user => ?_
  subst hid
  exact row_fits now notFreeze startTime user haffordable hi.within hloads

/-! ### One problem, and two -/

/-- One problem that an `int` affords. -/
theorem affordable_one (number : Int) {cap : Int} (hle : cap ≤ int32Max) :
    Affordable fun n => if n = number then cap else 0 := by
  intro numbers
  have hsum : numbers.Nodup → (numbers.map fun n => if n = number then cap else 0).sum =
      if number ∈ numbers then cap else 0 := by
    induction numbers with
    | nil => intro _; rfl
    | cons n numbers ih =>
      intro hnodup
      obtain ⟨hnew, hnodup⟩ := List.nodup_cons.mp hnodup
      rw [List.map_cons, List.sum_cons, ih hnodup]
      by_cases heq : n = number
      · subst heq
        simp [hnew]
      · simp [heq, Ne.symm heq]
  intro hnodup
  rw [hsum hnodup]
  split
  · exact hle
  · decide

theorem sample_fits :
    Always (siteStep (AcmScores.acmDeployment [(2, 100)])) (Law 1) (init AcmScores.acmDb 0) AcmScores.importThenCheck :=
  totals_fit (AcmScores.acmDeployment [(2, 100)]) 1 (affordable_one 1 (by decide : (100 : Int) ≤ int32Max))
    (by decide) 0 AcmScores.importThenCheck (by decide +kernel)

/-- A problem whose one test is worth all of `int`. -/
def largeManifest (number : Int) :
    ProblemManifest := { number := number, name := "Sum", scores := some [(1, int32Max)] }

def largeEntries : List ZipEntry :=
  [⟨"A/", 0, .ok []⟩, ⟨"A/problem.json", 1, .ok [1]⟩, ⟨"A/input1.txt", 0, .ok []⟩, ⟨"A/output1.txt", 0, .ok []⟩,
   ⟨"B/", 0, .ok []⟩, ⟨"B/problem.json", 1, .ok [2]⟩, ⟨"B/input1.txt", 0, .ok []⟩, ⟨"B/output1.txt", 0, .ok []⟩]

def largeDeployment : Deployment where
  service := ⟨Domain.Culture.ordinal, {},
    ⟨.asciiOnly, fun bytes => .ok (some (largeManifest (if bytes = [1] then 1 else 2)))⟩, [4]⟩
  platform := Verdict.samplePlatform

/-- Submission `id` is claimed, judged and saved by call `a`. -/
def judged (a : Nat) (id : Int) : List Event :=
  ([Ev.tryCheckFromDB sampleChecker, .enter a, .pick a (some id), .claim a, .leave a] ++
    checked a .completed).map .queue

/-- An import, and an accepted submission to each of its problems. -/
def importThenAccept : List Event :=
  [.queue (.importAsync 1 (.ok largeEntries)), .queue (.enter 0), .queue (.prepare 0), .queue (.commit 0),
    .queue (.leave 0), .post ⟨"source", 1, 1, 0, 0⟩, .post ⟨"source", 2, 1, 0, 0⟩] ++ judged 1 1 ++ judged 2 2

def acceptedContest : Domain.Contest where
  abbr := "acm"
  startTime := 0
  endTime := 300 * Domain.ticksPerMinute
  freezeTime := none
  problems := [⟨1, 1, [⟨1, 2, false, 0, some int32Max, Domain.IcpcRules.sampleUser, 1⟩], by decide⟩,
    ⟨2, 2, [⟨2, 2, false, 0, some int32Max, Domain.IcpcRules.sampleUser, 2⟩], by decide⟩]
  competitors := [⟨Domain.IcpcRules.sampleUser, ⟨true, false⟩, Domain.IcpcRules.sampleUser_competes⟩]
  problem_ids := by decide
  problem_count := by decide

/-- Each problem of the archive is accepted, but the standings throw. -/
theorem two_problems_overflow :
    (∀ problem ∈ AcmScores.acmDb.problems.rows, problem.contestId ≠ 1) ∧
      (∃ imported, readAsync largeDeployment.service.options largeDeployment.service.runtime (.ok largeEntries) =
        .ok imported) ∧
      Domain.Standing.newStanding .ordinal .exact 0 acceptedContest false false false none = .error .overflow ∧
      ¬Always (siteStep largeDeployment) (Law 1) (init AcmScores.acmDb 0) importThenAccept := by
  refine ⟨by decide, ⟨_, rfl⟩, rfl, fun halways => ?_⟩
  have hrow : (⟨1, "acm"⟩ : ContestRow) ∈
      (final (siteStep largeDeployment) (init AcmScores.acmDb 0) importThenAccept).db.contests.rows := by decide +kernel
  have hloads : Loads (final (siteStep largeDeployment) (init AcmScores.acmDb 0) importThenAccept).db ⟨1, "acm"⟩
      acceptedContest := ⟨rfl, by decide +kernel, by decide +kernel⟩
  exact halways.last _ hrow rfl acceptedContest hloads 0 false none Domain.IcpcRules.sampleUser rfl

end OlympSystem.Site.RowTotals
