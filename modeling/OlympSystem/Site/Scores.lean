/-
  OlympSystem.Site.Scores — the scores of an archive through an import and a check.

  `ReadAsync` bounds what the manifest of a problem gives its tests in all; the import
  gives each test its score; `Check` adds the scores of the accepted tests in checked
  `Int32` arithmetic.

  Proved:
  - `importedScores_total`: the scores of the tests of an accepted problem are not
    negative and their total is an `Int32`, with explicit scores or without.
  - `sumScores_bounded`: so no verdicts make the sum of a check overflow.
  - `score_law`: what `Check` makes of the scores, and that it makes it of the scores of
    every accepted archive.
-/

import Mathlib.Data.Int.Interval
import OlympSystem.Checker.Verdict
import OlympSystem.Site.ContestProblemService

namespace OlympSystem.Site.Scores

open Lib.Checked Lib.Dictionaries Lib.Program OlympSystem.Checker OlympSystem.Checker.CheckerService
  OlympSystem.Checker.Verdict ProblemArchive

/-! ## The scores an import gives -/

/-- Increasing numbers from 1 to 999 are at most 999 numbers. -/
theorem Accepted.tests_length {item : ImportedProblem} (h : Accepted item) : item.tests.length ≤ 999 := by
  have hnodup : (item.tests.map ImportedTest.number).Nodup := h.numbers.imp fun hlt => ne_of_lt hlt
  have hsub : (item.tests.map ImportedTest.number).toFinset ⊆ Finset.Icc 1 999 := by
    intro n hn
    obtain ⟨test, htest, rfl⟩ := List.mem_map.mp (List.mem_toFinset.mp hn)
    exact Finset.mem_Icc.mpr (h.range test htest)
  have hcard := Finset.card_le_card hsub
  rw [List.toFinset_card_of_nodup hnodup, List.length_map, Int.card_Icc] at hcard
  exact hcard

theorem importedScore_bounds {isSchool : Bool} {data : ProblemManifest} {count i : Nat} {number : Int}
    (hscores : data.scores = none) (hopen : data.openTestCount ≤ count) :
    0 ≤ (importedScore isSchool data count i number).getD 0 ∧
      (importedScore isSchool data count i number).getD 0 ≤ 101 := by
  unfold importedScore
  rw [hscores]
  cases isSchool with
  | false =>
    simp only [Bool.false_eq_true, if_false, Option.getD_none]
    omega
  | true =>
    have hnonneg : 0 ≤ Int.tdiv 100 (count - data.openTestCount) := Int.tdiv_nonneg (by decide) (by omega)
    have hle : Int.tdiv 100 (count - data.openTestCount) ≤ 100 := Int.tdiv_le_self _ (by decide)
    simp only [if_true, Option.getD_some]
    split
    · exact ⟨by decide, by decide⟩
    · split <;> constructor <;> omega

theorem sum_le_of_bounded {l : List Int} {b : Int} (h : ∀ x ∈ l, x ≤ b) : l.sum ≤ b * l.length := by
  induction l with
  | nil => simp
  | cons x l ih =>
    have hx := h x List.mem_cons_self
    have hl := ih fun y hy => h y (List.mem_cons_of_mem _ hy)
    rw [List.sum_cons, List.length_cons, Nat.cast_succ, mul_add, mul_one]; omega

theorem importedScores_total {item : ImportedProblem} (h : Accepted item) (isSchool : Bool) :
    (∀ score ∈ (importedTests isSchool item).map (·.score.getD 0), 0 ≤ score) ∧
      ((importedTests isSchool item).map (·.score.getD 0)).sum ≤ int32Max := by
  cases hscores : item.manifest.scores with
  | some scores =>
    have hfit := h.scores scores hscores
    have hmap : (importedTests isSchool item).map (·.score.getD 0) =
        (item.tests.map ImportedTest.number).map (lookupD scores) := by
      refine List.ext_getElem? fun i => ?_
      simp only [importedTests, List.getElem?_map, List.getElem?_mapIdx, Option.map_map, importedScore, hscores]
      rfl
    have hnodup : (item.tests.map ImportedTest.number).Nodup := h.numbers.imp fun hlt => ne_of_lt hlt
    rw [hmap]
    refine ⟨fun score hs => ?_, (sum_lookup_le hfit.nonneg hnodup).trans hfit.total⟩
    obtain ⟨n, -, rfl⟩ := List.mem_map.mp hs
    exact lookupD_nonneg hfit.nonneg n
  | none =>
    have hbounds : ∀ score ∈ (importedTests isSchool item).map (·.score.getD 0), 0 ≤ score ∧ score ≤ 101 := by
      intro score hs
      obtain ⟨content, hcontent, rfl⟩ := List.mem_map.mp hs
      obtain ⟨i, hi, rfl⟩ := List.mem_mapIdx.mp hcontent
      exact importedScore_bounds hscores h.openTestCount.2
    have hsum := sum_le_of_bounded fun score hs => (hbounds score hs).2
    have hlength : ((importedTests isSchool item).map (·.score.getD 0)).length ≤ 999 := by
      rw [List.length_map, importedTests, List.length_mapIdx]; exact Accepted.tests_length h
    refine ⟨fun score hs => (hbounds score hs).1, ?_⟩
    unfold int32Max
    omega

/-! ## The sum of a check -/

/-- Tests whose scores are among those of an imported problem. -/
def ScoresOf (isSchool : Bool) (item : ImportedProblem) (tests : List CheckTest) : Prop :=
  (tests.map (·.score.getD 0)).Sublist ((importedTests isSchool item).map (·.score.getD 0))

theorem zipWith_le : ∀ {tests : List CheckTest}, (∀ score ∈ tests.map (·.score.getD 0), 0 ≤ score) →
    ∀ verdicts : List CheckerResultStatus,
      (∀ score ∈ (tests.zipWith testScore verdicts).map (·.getD 0), 0 ≤ score) ∧
        ((tests.zipWith testScore verdicts).map (·.getD 0)).sum ≤ (tests.map (·.score.getD 0)).sum := by
  intro tests
  induction tests with
  | nil => intro _ verdicts; simp
  | cons test tests ih =>
    intro h verdicts
    have htest : 0 ≤ test.score.getD 0 := h _ List.mem_cons_self
    have hrest : ∀ score ∈ tests.map (·.score.getD 0), 0 ≤ score := fun s hs => h s (List.mem_cons_of_mem _ hs)
    cases verdicts with
    | nil =>
      have := sum_nonneg h
      simpa using this
    | cons verdict verdicts =>
      obtain ⟨hnonneg, hsum⟩ := ih hrest verdicts
      have hone : 0 ≤ (testScore test verdict).getD 0 ∧ (testScore test verdict).getD 0 ≤ test.score.getD 0 := by
        unfold testScore
        split
        · exact ⟨htest, le_refl _⟩
        · exact ⟨le_refl _, htest⟩
      rw [List.zipWith_cons_cons, List.map_cons, List.map_cons, List.sum_cons, List.sum_cons]
      refine ⟨fun score hs => ?_, by omega⟩
      rcases List.mem_cons.mp hs with rfl | hs
      · exact hone.1
      · exact hnonneg score hs

/-- The sum of the scores of an imported problem's tests is an `Int32` whatever the
    verdicts. -/
theorem sumScores_bounded {isSchool : Bool} {item : ImportedProblem} (h : Accepted item) {tests : List CheckTest}
    (ht : ScoresOf isSchool item tests) (verdicts : List CheckerResultStatus) :
    sumScores (tests.zipWith testScore verdicts) =
      some ((tests.zipWith testScore verdicts).map (·.getD 0)).sum := by
  obtain ⟨hnonneg, htotal⟩ := importedScores_total h isSchool
  obtain ⟨hzip, hle⟩ := zipWith_le (fun score hs => hnonneg score (ht.subset hs)) verdicts
  have hsub := sum_le_of_sublist ht hnonneg
  exact checkedSum_of_nonneg hzip (by decide) (by omega)

/-- The scores of every check that returns after a completed compilation; and of the tests
    of an accepted archive's problem, `Check` sums the scores without overflow, whatever
    verdicts it collected. -/
theorem score_law :
    (∀ (svc : CheckerService) (platform : Platform) (request : CheckRequest) (elapsed : TimeSpan) (s : Fields)
        (a : Answers) (compileResult : RunnerResult) (result : CheckerResult),
      a 0 = .ok compileResult → compileResult.status = .completed →
      (Prog.solo (svc.check platform request elapsed) s a).result = .ok result →
      ∃ checker runs, svc.findChecker request.checkerId = some checker ∧
        Executed request.allTests request.tests runs ∧ (∀ run ∈ runs, run.Follows checker) ∧
        (Prog.solo (svc.check platform request elapsed) s a).log =
          compileEntry request (a 0) :: requestsOf request runs ∧
        statusCodeOf runs = .ok result.statusCode ∧ Scored request result runs) ∧
    ∀ (options : ContestImportOptions) (runtime : Runtime) (source : Except Exn (List ZipEntry))
        (items : List ImportedProblem), readAsync options runtime source = .ok items →
      ∀ item ∈ items, ∀ isSchool, ∀ request : CheckRequest, ScoresOf isSchool item request.tests →
        ∀ (platform : Platform) (elapsed : TimeSpan) (acc : Progress),
          (∃ sum, sumScores (request.tests.zipWith testScore acc.testResults) = some sum) ∧
            checkerResult platform request elapsed acc ≠ .error .overflow := by
  refine ⟨fun svc platform request elapsed s a compileResult result h0 hc h => ?_,
    fun options runtime source items hread item hitem isSchool request hscores platform elapsed acc => ?_⟩
  · exact check_scored platform elapsed h0 hc h
  · obtain ⟨-, haccepted, -⟩ := readAsync_accepted options runtime hread
    have hsum := sumScores_bounded (haccepted item hitem) hscores acc.testResults
    refine ⟨⟨_, hsum⟩, ?_⟩
    unfold checkerResult
    rw [hsum]
    split <;> simp

/-! ### A problem of two tests -/

def sampleManifest : ProblemManifest := { number := 1, name := "Sum", scores := some [(1, 30), (2, 70)] }

def sampleRuntime : Runtime := ⟨.asciiOnly, fun _ => .ok (some sampleManifest)⟩

def sampleEntries : List ZipEntry :=
  [⟨"A/", 0, .ok []⟩, ⟨"A/problem.json", 0, .ok []⟩, ⟨"A/input1.txt", 0, .ok []⟩, ⟨"A/output1.txt", 0, .ok []⟩,
   ⟨"A/input02.txt", 0, .ok []⟩, ⟨"A/output02.txt", 1, .ok [0x61]⟩]

def sampleItem : ImportedProblem := ⟨"A", sampleManifest, [⟨1, [], []⟩, ⟨2, [], [0x61]⟩]⟩

theorem sample_read : readAsync {} sampleRuntime (.ok sampleEntries) = .ok [sampleItem] := by decide

theorem sample_scores :
    (∃ result runs, Executed sampleRequest.allTests sampleRequest.tests runs ∧
      (∀ run ∈ runs, run.Follows sampleChecker) ∧ statusCodeOf runs = .ok result.statusCode ∧
      Scored sampleRequest result runs) ∧
    checkerResult samplePlatform sampleRequest 0 ⟨"", [.accepted, .wrongAnswer], 2, 0, 0, 0⟩ ≠ .error .overflow := by
  have hresult : ∃ result, (Prog.solo (sampleService.check samplePlatform sampleRequest 0)
      sampleService.initialFields fun _ => .ok sampleAnswer).result = .ok result := ⟨_, rfl⟩
  obtain ⟨result, hresult⟩ := hresult
  constructor
  · obtain ⟨checker, runs, hchecker, hexec, hfollows, -, hcode, hscored⟩ :=
      score_law.1 _ _ _ _ _ _ _ _ rfl rfl hresult
    cases hchecker
    exact ⟨result, runs, hexec, hfollows, hcode, hscored⟩
  · exact (score_law.2 {} sampleRuntime _ _ sample_read sampleItem List.mem_cons_self false sampleRequest
      (by unfold ScoresOf; decide) samplePlatform 0 _).2

end OlympSystem.Site.Scores
