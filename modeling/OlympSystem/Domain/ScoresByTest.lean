/-
  OlympSystem.Domain.ScoresByTest — the per-test results of a submission and their short
  form (`Submission.FormattedScoresByTest`).

  `Check` joins one field a test, the points or the verdict's name; the short form keeps
  its capital letters, digits and separators.

  Proved:
  - `format_join`: the short form of a join is the join of the short forms.
  - `format_text_injective`: no two outcomes of a test have one short form, and none has
    an empty one.
  - `check_written`: what `Check` writes is a join of outcomes.
  - `formatted_lossless`: the short form tells the outcomes.
-/

import OlympSystem.Lib.Text
import OlympSystem.Checker.Verdict

namespace OlympSystem.Domain

open OlympSystem.Checker Lib.Text Lib.Program

namespace ScoresByTest

def kept (classes : CharClasses) (c : Char) : Bool := classes.isUpper c || classes.isDigit c || c == ';'

/-- `string.Concat(ScoresByTest.Where(…))`. -/
def format (classes : CharClasses) (text : String) : String := String.ofList (text.toList.filter (kept classes))

def formattedScoresByTest (classes : CharClasses) (scoresByTest : Option String) : Option String :=
  scoresByTest.map (format classes)

/-- How a test can end: with points, or with a verdict that is not `Accepted`. -/
inductive Outcome where
  | score (points : Nat)
  | verdict (status : CheckerResultStatus) (failed : status ≠ .accepted)
  deriving DecidableEq

def Outcome.text : Outcome → String
  | .score points => toString points
  | .verdict status _ => status.name

def testResults (outcomes : List Outcome) : String := String.intercalate ";" (outcomes.map Outcome.text)

/-! ## The short form of a join -/

variable (classes : CharClasses)

theorem kept_semicolon : kept classes ';' = true := by
  unfold kept
  simp

theorem toList_format (text : String) : (format classes text).toList = text.toList.filter (kept classes) :=
  String.toList_ofList

theorem filter_intercalate {α : Type} {p : α → Bool} {separator : α} (h : p separator = true) :
    ∀ fields : List (List α), ([separator].intercalate fields).filter p =
      [separator].intercalate (fields.map (List.filter p)) := by
  intro fields
  induction fields with
  | nil => rfl
  | cons field fields ih =>
    cases fields with
    | nil => simp
    | cons next fields =>
      rw [List.map_cons, List.map_cons, List.intercalate_cons_cons, List.intercalate_cons_cons, List.filter_append,
        List.filter_append, ih, List.map_cons]
      simp [h]

theorem format_join (fields : List String) :
    format classes (String.intercalate ";" fields) = String.intercalate ";" (fields.map (format classes)) := by
  refine String.toList_injective ?_
  have hsingle : ";".toList = [';'] := by decide
  have hfilter := filter_intercalate (kept_semicolon classes) (fields.map String.toList)
  rw [toList_format, String.toList_intercalate, String.toList_intercalate, hsingle, hfilter, List.map_map, List.map_map]
  congr 1
  exact List.map_congr_left fun field _ => (toList_format classes field).symm

/-- A short form has the separators of its text. -/
theorem separator_mem_format {text : String} : ';' ∈ (format classes text).toList ↔ ';' ∈ text.toList := by
  rw [toList_format, List.mem_filter]
  exact ⟨fun h => h.1, fun h => ⟨h, kept_semicolon classes⟩⟩

theorem split_format (text : String) :
    split ';' (format classes text) = (split ';' text).map (format classes) := by
  have hne : split ';' text ≠ [] := by
    unfold split
    intro hnil
    exact List.splitOn_ne_nil ';' text.toList (List.map_eq_nil_iff.mp hnil)
  have hplain : ∀ field ∈ (split ';' text).map (format classes), ';' ∉ field.toList := by
    intro field hfield
    obtain ⟨piece, hpiece, rfl⟩ := List.mem_map.mp hfield
    obtain ⟨chars, hchars, rfl⟩ := List.mem_map.mp hpiece
    rw [separator_mem_format, String.toList_ofList]
    exact not_mem_splitOn hchars
  have hjoin := split_join (by simpa using hne) hplain
  rw [← hjoin]
  have hsep : String.singleton ';' = ";" := by decide
  rw [hsep, ← format_join, ← hsep, join_split]

/-! ## The short form of an outcome -/

/-- On ASCII the filter is known. -/
theorem format_ascii {text : String} (h : ∀ c ∈ text.toList, c.toNat < 128) :
    (format classes text).toList = text.toList.filter fun c => c.isUpper || c.isDigit || c == ';' := by
  rw [toList_format]
  apply List.filter_congr
  intro c hc
  unfold kept
  rw [classes.isUpper_ascii c (h c hc), classes.isDigit_ascii c (h c hc)]

theorem digits_of_toString (n : Nat) : ∀ c ∈ (toString n).toList, c.isDigit = true := by
  intro c hc
  rw [Nat.toString_eq_ofList_toDigits, String.toList_ofList] at hc
  exact Nat.isDigit_of_mem_toDigits (by decide) (by decide) hc

/-- Points are their own short form. -/
theorem format_score (points : Nat) : format classes (Outcome.score points).text = toString points := by
  refine String.toList_injective ?_
  have hdigits := digits_of_toString points
  show (format classes (toString points)).toList = _
  rw [format_ascii classes fun c hc => digit_ascii (hdigits c hc)]
  apply List.filter_eq_self.mpr
  intro c hc
  simp [hdigits c hc]

def capitals : CheckerResultStatus → String
  | .accepted => "A"
  | .compilationError => "CE"
  | .timeLimit => "TL"
  | .idlenessLimit => "IL"
  | .memoryLimit => "ML"
  | .runtimeError => "RE"
  | .presentationError => "PE"
  | .wrongAnswer => "WA"
  | .internalError => "IE"

theorem format_verdict (status : CheckerResultStatus) : format classes status.name = capitals status := by
  refine String.toList_injective ?_
  have hascii : status.name.toList.all (fun c => decide (c.toNat < 128)) = true := by cases status <;> decide
  rw [format_ascii classes fun c hc => of_decide_eq_true (List.all_eq_true.mp hascii c hc)]
  cases status <;> decide

theorem capitals_injective {a b : CheckerResultStatus} (h : capitals a = capitals b) : a = b := by
  cases a <;> cases b <;> simp_all [capitals]

/-- Capital letters are no digits. -/
theorem capitals_ne_points (status : CheckerResultStatus) (points : Nat) : capitals status ≠ toString points := by
  intro h
  have hdigits := List.all_eq_true.mpr (digits_of_toString points)
  rw [← h] at hdigits
  cases status <;> exact absurd hdigits (by decide)

theorem format_text_injective {a b : Outcome} (h : format classes a.text = format classes b.text) : a = b := by
  cases a with
  | score m =>
    cases b with
    | score n =>
      rw [format_score, format_score] at h
      rw [toString_injective h]
    | verdict status failed =>
      rw [format_score] at h
      exact absurd ((format_verdict classes status).symm.trans h.symm) (capitals_ne_points status m)
  | verdict status failed =>
    have h : format classes status.name = format classes b.text := h
    rw [format_verdict] at h
    cases b with
    | score n =>
      rw [format_score] at h
      exact absurd h (capitals_ne_points status n)
    | verdict other failed' =>
      have hcapitals : capitals status = capitals other := h.trans (format_verdict classes other)
      cases capitals_injective hcapitals
      rfl

theorem format_text_ne (outcome : Outcome) : format classes outcome.text ≠ "" := by
  cases outcome with
  | score points =>
    rw [format_score]
    obtain ⟨c, rest, hdigits, -⟩ := digits_head points
    intro hempty
    have hchars := congrArg String.toList hempty
    rw [Nat.toString_eq_ofList_toDigits, String.toList_ofList, hdigits] at hchars
    cases hchars
  | verdict status failed =>
    show format classes status.name ≠ ""
    rw [format_verdict]
    cases status <;> decide

/-! ## What `Check` writes -/

def outcomeOf (run : Verdict.TestRun) : Outcome :=
  if h : run.verdict = .accepted then .score (run.test.score.getD 0).toNat else .verdict run.verdict h

theorem outcomeOf_text {run : Verdict.TestRun} (h : 0 ≤ run.test.score.getD 0) :
    (outcomeOf run).text =
      if run.verdict = .accepted then toString (run.test.score.getD 0) else run.verdict.name := by
  unfold outcomeOf
  by_cases haccepted : run.verdict = .accepted
  · rw [dif_pos haccepted, if_pos haccepted]
    have hpoints : run.test.score.getD 0 = ((run.test.score.getD 0).toNat : Int) := (Int.toNat_of_nonneg h).symm
    rw [hpoints]
    rfl
  · rw [dif_neg haccepted, if_neg haccepted]
    rfl

/-- A text that some check returns as its per-test results. -/
def Written (text : String) : Prop :=
  ∃ (svc : CheckerService) (platform : Platform) (request : CheckRequest) (elapsed : TimeSpan) (s : Fields)
    (a : Verdict.Answers) (result : CheckerResult),
    (∀ test ∈ request.tests, 0 ≤ test.score.getD 0) ∧
    (Prog.solo (svc.check platform request elapsed) s a).result = .ok result ∧ result.testResults = some text

/-- A check that returns per-test results had a completed compilation, and they are the
    outcomes of its test runs. -/
theorem check_written {text : String} (h : Written text) : ∃ outcomes, text = testResults outcomes := by
  obtain ⟨svc, platform, request, elapsed, s, a, result, hscores, hresult, htext⟩ := h
  obtain ⟨havail, hsup, compileResult, h0⟩ := Verdict.check_available platform elapsed hresult
  by_cases hc : compileResult.status = .completed
  · obtain ⟨checker, runs, -, hexec, -, -, -, hscored⟩ := Verdict.check_scored platform elapsed h0 hc hresult
    have hsome : ∃ test ∈ request.tests, test.score ≠ none := by
      by_cases hex : ∃ test ∈ request.tests, test.score ≠ none
      · exact hex
      · have hnulls := hscored.nulls.mpr fun test htest => by
          by_cases hscore : test.score = none
          · exact hscore
          · exact absurd ⟨test, htest, hscore⟩ hex
        rw [hnulls.2] at htext
        cases htext
    obtain ⟨text', htext', hsplit⟩ := hscored.testResults hsome
    rw [htext] at htext'
    cases htext'
    obtain ⟨rest, htests, -⟩ := hexec
    refine ⟨runs.map outcomeOf, ?_⟩
    have hfields : (runs.map outcomeOf).map Outcome.text = split ';' text := by
      rw [hsplit, List.map_map]
      apply List.map_congr_left
      intro run hrun
      apply outcomeOf_text
      apply hscores
      rw [htests]
      exact List.mem_append_left _ (List.mem_map_of_mem hrun)
    unfold testResults
    rw [hfields]
    exact (join_split ';' text).symm
  · rw [Verdict.solo_compiled platform elapsed havail hsup h0, if_pos hc] at hresult
    cases hresult
    cases htext

/-! ## The short form of the results -/

theorem map_injective {α β : Type} {f : α → β} (h : ∀ {a b : α}, f a = f b → a = b) :
    ∀ {as bs : List α}, as.map f = bs.map f → as = bs :=
  fun heq => List.map_injective_iff.mpr (fun _ _ hab => h hab) heq

theorem format_text_noSeparator (outcome : Outcome) : ';' ∉ (format classes outcome.text).toList := by
  rw [separator_mem_format]
  cases outcome with
  | score points =>
    intro hmem
    exact absurd (digits_of_toString points ';' hmem) (by decide)
  | verdict status failed =>
    show ';' ∉ status.name.toList
    cases status <;> decide

/-- The short form of outcomes that are at least one, cut at its separators. -/
theorem split_short {outcomes : List Outcome} (h : outcomes ≠ []) :
    split ';' (format classes (testResults outcomes)) = outcomes.map fun outcome => format classes outcome.text := by
  have hsep : String.singleton ';' = ";" := by decide
  unfold testResults
  rw [format_join, ← hsep, split_join]
  · rw [List.map_map]
    rfl
  · simpa using h
  · intro field hfield
    obtain ⟨text, htext, rfl⟩ := List.mem_map.mp hfield
    obtain ⟨outcome, -, rfl⟩ := List.mem_map.mp htext
    exact format_text_noSeparator classes outcome

theorem format_nil : format classes (testResults []) = "" := rfl

/-- No outcomes have an empty short form. -/
theorem short_ne_nil {outcomes : List Outcome} (h : outcomes ≠ []) : format classes (testResults outcomes) ≠ "" := by
  intro hempty
  have hsplit := split_short classes h
  rw [hempty] at hsplit
  cases outcomes with
  | nil => exact h rfl
  | cons outcome outcomes =>
    have hone : split ';' "" = [""] := by decide
    rw [hone, List.map_cons] at hsplit
    exact format_text_ne classes outcome (List.cons.inj hsplit).1.symm

theorem format_testResults_injective {a b : List Outcome}
    (h : format classes (testResults a) = format classes (testResults b)) : a = b := by
  by_cases ha : a = []
  · by_cases hb : b = []
    · rw [ha, hb]
    · rw [ha, format_nil] at h
      exact absurd h.symm (short_ne_nil classes hb)
  · by_cases hb : b = []
    · rw [hb, format_nil] at h
      exact absurd h (short_ne_nil classes ha)
    · have hsplit := split_short classes ha
      rw [h, split_short classes hb] at hsplit
      exact (map_injective (format_text_injective classes) hsplit).symm

theorem formatted_lossless (classes : CharClasses) :
    (∀ a b : List Outcome, format classes (testResults a) = format classes (testResults b) → a = b) ∧
    (∀ text text', Written text → Written text' →
      formattedScoresByTest classes (some text) = formattedScoresByTest classes (some text') → text = text') ∧
    (∀ text, (split ';' (format classes text)).length = (split ';' text).length) ∧
    ∀ outcomes, outcomes ≠ [] → (split ';' (format classes (testResults outcomes))).length = outcomes.length := by
  refine ⟨fun a b h => format_testResults_injective classes h, fun text text' hw hw' h => ?_, fun text => ?_,
    fun outcomes hne => ?_⟩
  · obtain ⟨a, ha⟩ := check_written hw
    obtain ⟨b, hb⟩ := check_written hw'
    have hshort : format classes text = format classes text' := Option.some.inj h
    rw [ha, hb] at hshort ⊢
    rw [format_testResults_injective classes hshort]
  · rw [split_format, List.length_map]
  · rw [split_short classes hne, List.length_map]

end ScoresByTest

end OlympSystem.Domain
