/-
  OlympSystem.Domain.CheckStatusCodes — how the site reads a status code
  (`CheckStatusCodes` of `DomainObjects.cs`).

  The checker writes the codes (`makeStatusCode`), the site reads them by its own table.

  Proved:
  - `makeStatusCode_throws`: what is not written is refused with an `ArgumentException`.
  - `template_perTest`: a template of the table belongs to one verdict, and it is read for
    the codes of that verdict's thousand and for no other.
  - `testNumber_band`: in its thousand the test's number is read back.
  - `statusCodes_codec`: the two tables are inverse to each other on the per-test codes.
-/

import Mathlib.Logic.ExistsUnique
import OlympSystem.Checker.ResultStatus

namespace OlympSystem.Domain

open OlympSystem.Checker

namespace CheckStatusCodes

def template (statusCode : Int) : String :=
  if statusCode = 0 then "Queued..."
  else if statusCode = 1 then "Checking..."
  else if statusCode = 2 then "Accepted"
  else if statusCode = -1 then "Compilation error"
  else if statusCode < -1000 ∧ -2000 < statusCode then "Wrong answer on test \x7b0\x7d"
  else if statusCode < -2000 ∧ -3000 < statusCode then "Time limit exceeded on test \x7b0\x7d"
  else if statusCode < -3000 ∧ -4000 < statusCode then "Runtime error on test \x7b0\x7d"
  else if statusCode < -4000 ∧ -5000 < statusCode then "Presentation error on test \x7b0\x7d"
  else if statusCode < -5000 ∧ -6000 < statusCode then "Idleness limit exceeded on test \x7b0\x7d"
  else if statusCode < -6000 ∧ -7000 < statusCode then "Memory limit exceeded on test \x7b0\x7d"
  else "Internal error"

/-- Unary minus of an `int`, unchecked: the smallest one is its own negation. -/
def negate (n : Int) : Int := (-n).bmod 4294967296

def testNumber (statusCode : Int) : Int := (negate statusCode).tmod 1000

/-- `string.Format` of a format whose only item is `{0}`. -/
def formatItem (arg : List Char) : List Char → List Char
  | '{' :: '0' :: '}' :: rest => arg ++ formatItem arg rest
  | c :: rest => c :: formatItem arg rest
  | [] => []

def description (statusCode : Int) : String :=
  String.ofList (formatItem (toString (testNumber statusCode)).toList (template statusCode).toList)

end CheckStatusCodes

open CheckStatusCodes

def band : CheckerResultStatus → Int
  | .wrongAnswer => 1
  | .timeLimit => 2
  | .runtimeError => 3
  | .presentationError => 4
  | .idlenessLimit => 5
  | .memoryLimit => 6
  | _ => 0

def verdictTemplate : CheckerResultStatus → String
  | .wrongAnswer => "Wrong answer on test \x7b0\x7d"
  | .timeLimit => "Time limit exceeded on test \x7b0\x7d"
  | .runtimeError => "Runtime error on test \x7b0\x7d"
  | .presentationError => "Presentation error on test \x7b0\x7d"
  | .idlenessLimit => "Idleness limit exceeded on test \x7b0\x7d"
  | .memoryLimit => "Memory limit exceeded on test \x7b0\x7d"
  | _ => "Internal error"

example : description (-3042) = "Runtime error on test 42" := by decide

/-! ## What is written -/

/-- What `MakeStatusCode` accepts. -/
def Codable (status : CheckerResultStatus) (test : Option Int) : Prop :=
  ((status = .accepted ∨ status = .compilationError) ∧ test = none) ∨ status = .internalError ∨
    (status.perTest = true ∧ ∃ t, test = some t ∧ 1 ≤ t ∧ t ≤ 999)

theorem makeStatusCode_band {status : CheckerResultStatus} (h : status.perTest = true) {t : Int} (ht : 1 ≤ t)
    (ht' : t ≤ 999) : makeStatusCode status (some t) = .ok (-(1000 * band status) - t) := by
  have hrange : ¬(t ≤ 0 ∨ 1000 ≤ t) := by omega
  cases status with
  | accepted => cases h
  | compilationError => cases h
  | internalError => cases h
  | wrongAnswer => simp only [makeStatusCode, if_neg hrange]; rfl
  | timeLimit => simp only [makeStatusCode, if_neg hrange]; rfl
  | runtimeError => simp only [makeStatusCode, if_neg hrange]; rfl
  | presentationError => simp only [makeStatusCode, if_neg hrange]; rfl
  | idlenessLimit => simp only [makeStatusCode, if_neg hrange]; rfl
  | memoryLimit => simp only [makeStatusCode, if_neg hrange]; rfl

theorem makeStatusCode_returns {status : CheckerResultStatus} {test : Option Int} (h : Codable status test) :
    ∃ code, makeStatusCode status test = .ok code := by
  rcases h with ⟨hstatus | hstatus, hnone⟩ | hstatus | ⟨hper, t, hsome, ht, ht'⟩
  · exact ⟨2, by rw [hstatus, hnone]; rfl⟩
  · exact ⟨-1, by rw [hstatus, hnone]; rfl⟩
  · exact ⟨-10, by rw [hstatus]; rfl⟩
  · exact ⟨_, by rw [hsome]; exact makeStatusCode_band hper ht ht'⟩

theorem makeStatusCode_throws {status : CheckerResultStatus} {test : Option Int} (h : ¬Codable status test) :
    ∃ param, makeStatusCode status test = .error (.argument "Invalid value" param) := by
  cases test with
  | none =>
    cases status with
    | accepted => exact absurd (.inl ⟨.inl rfl, rfl⟩) h
    | compilationError => exact absurd (.inl ⟨.inr rfl, rfl⟩) h
    | internalError => exact absurd (.inr (.inl rfl)) h
    | _ => exact ⟨"test", rfl⟩
  | some t =>
    by_cases hrange : t ≤ 0 ∨ 1000 ≤ t
    · cases status with
      | internalError => exact absurd (.inr (.inl rfl)) h
      | _ => exact ⟨"test", by simp only [makeStatusCode, if_pos hrange]⟩
    · have hper : status.perTest = true → False := fun hper => h (.inr (.inr ⟨hper, t, rfl, by omega, by omega⟩))
      cases status with
      | accepted => exact ⟨"status", by simp only [makeStatusCode, if_neg hrange]⟩
      | compilationError => exact ⟨"status", by simp only [makeStatusCode, if_neg hrange]⟩
      | internalError => exact absurd (.inr (.inl rfl)) h
      | _ => exact absurd rfl hper

theorem makeStatusCode_iff (status : CheckerResultStatus) (test : Option Int) :
    (∃ code, makeStatusCode status test = .ok code) ↔ Codable status test := by
  refine ⟨fun h => ?_, makeStatusCode_returns⟩
  obtain ⟨code, hok⟩ := h
  by_cases hno : Codable status test
  · exact hno
  · obtain ⟨param, herror⟩ := makeStatusCode_throws hno
    rw [herror] at hok
    cases hok

/-- A per-test code names its test. -/
theorem makeStatusCode_test {status : CheckerResultStatus} (h : status.perTest = true) {test : Option Int} {code : Int}
    (hok : makeStatusCode status test = .ok code) :
    ∃ t, test = some t ∧ 1 ≤ t ∧ t ≤ 999 ∧ code = -(1000 * band status) - t := by
  rcases (makeStatusCode_iff status test).mp ⟨code, hok⟩ with ⟨hstatus | hstatus, _⟩ | hstatus | ⟨_, t, hsome, ht, ht'⟩
  · rw [hstatus] at h; cases h
  · rw [hstatus] at h; cases h
  · rw [hstatus] at h; cases h
  · rw [hsome, makeStatusCode_band h ht ht'] at hok
    exact ⟨t, hsome, ht, ht', (Except.ok.inj hok).symm⟩

/-! ## What is read -/

def InBand (status : CheckerResultStatus) (code : Int) : Prop :=
  code < -(1000 * band status) ∧ -(1000 * band status) - 1000 < code

theorem band_range {status : CheckerResultStatus} (h : status.perTest = true) : 1 ≤ band status ∧ band status ≤ 6 := by
  cases status <;> simp_all [band, CheckerResultStatus.perTest]

theorem verdictTemplate_injective {a b : CheckerResultStatus} (ha : a.perTest = true) (hb : b.perTest = true)
    (h : verdictTemplate a = verdictTemplate b) : a = b := by
  cases a <;> cases b <;> simp_all [verdictTemplate, CheckerResultStatus.perTest]

theorem template_inBand {status : CheckerResultStatus} (h : status.perTest = true) {code : Int}
    (hband : InBand status code) : template code = verdictTemplate status := by
  unfold InBand at hband
  cases status with
  | accepted => cases h
  | compilationError => cases h
  | internalError => cases h
  | _ =>
    simp only [band] at hband
    unfold template
    simp only [verdictTemplate]
    grind

/-- A code of no verdict's thousand and of no state of a submission. -/
theorem template_other {code : Int} (h : ∀ status : CheckerResultStatus, status.perTest = true → ¬InBand status code)
    (h0 : code ≠ 0) (h1 : code ≠ 1) (h2 : code ≠ 2) (hce : code ≠ -1) : template code = "Internal error" := by
  have hwrong := h .wrongAnswer rfl
  have htime := h .timeLimit rfl
  have hruntime := h .runtimeError rfl
  have hpresentation := h .presentationError rfl
  have hidleness := h .idlenessLimit rfl
  have hmemory := h .memoryLimit rfl
  simp only [InBand, band] at hwrong htime hruntime hpresentation hidleness hmemory
  unfold template
  grind

theorem template_perTest {status : CheckerResultStatus} (h : status.perTest = true) (code : Int) :
    template code = verdictTemplate status ↔ InBand status code := by
  refine ⟨fun htemplate => ?_, template_inBand h⟩
  by_cases hband : ∃ other : CheckerResultStatus, other.perTest = true ∧ InBand other code
  · obtain ⟨other, hother, hin⟩ := hband
    have heq : verdictTemplate other = verdictTemplate status := (template_inBand hother hin).symm.trans htemplate
    rw [← verdictTemplate_injective hother h heq]
    exact hin
  · -- the other templates of the table are no verdict's
    exfalso
    have hother : ∀ text ∈ ["Queued...", "Checking...", "Accepted", "Compilation error", "Internal error"],
        text ≠ verdictTemplate status := by
      cases status <;> simp_all [verdictTemplate, CheckerResultStatus.perTest]
    by_cases h0 : code = 0
    · exact hother "Queued..." (by decide) (by rw [← htemplate, h0]; rfl)
    by_cases h1 : code = 1
    · exact hother "Checking..." (by decide) (by rw [← htemplate, h1]; rfl)
    by_cases h2 : code = 2
    · exact hother "Accepted" (by decide) (by rw [← htemplate, h2]; rfl)
    by_cases hce : code = -1
    · exact hother "Compilation error" (by decide) (by rw [← htemplate, hce]; rfl)
    refine hother "Internal error" (by decide) ?_
    rw [← htemplate]
    exact (template_other (fun other hper hin => hband ⟨other, hper, hin⟩) h0 h1 h2 hce).symm

theorem testNumber_band {status : CheckerResultStatus} (h : status.perTest = true) {code : Int}
    (hband : InBand status code) : testNumber code = -(1000 * band status) - code := by
  have hrange := band_range h
  unfold InBand at hband
  have hnegate : negate code = -code := by
    unfold negate
    rw [Int.bmod_eq_of_le (by omega) (by omega)]
  unfold testNumber
  rw [hnegate, Int.tmod_eq_emod_of_nonneg (by omega)]
  omega

/-- A template without an item is shown as it is. -/
theorem description_other {code : Int} (h : template code = "Internal error") :
    description code = "Internal error" := by
  unfold description
  rw [h]
  rfl

/-! ## The two tables -/

/-- What is written is read back. -/
theorem makeStatusCode_read {status : CheckerResultStatus} (h : status.perTest = true) {test : Option Int} {code : Int}
    (hok : makeStatusCode status test = .ok code) :
    test = some (testNumber code) ∧ template code = verdictTemplate status := by
  obtain ⟨t, hsome, ht, ht', hcode⟩ := makeStatusCode_test h hok
  have hband : InBand status code := by
    unfold InBand
    omega
  refine ⟨?_, template_inBand h hband⟩
  rw [hsome, testNumber_band h hband, hcode]
  congr 1
  omega

/-- What is read as a verdict on a test is what is written for it. -/
theorem makeStatusCode_of_template {status : CheckerResultStatus} (h : status.perTest = true) {code : Int}
    (htemplate : template code = verdictTemplate status) :
    1 ≤ testNumber code ∧ testNumber code ≤ 999 ∧ makeStatusCode status (some (testNumber code)) = .ok code := by
  have hband := (template_perTest h code).mp htemplate
  have hnumber := testNumber_band h hband
  have hrange : 1 ≤ testNumber code ∧ testNumber code ≤ 999 := by
    unfold InBand at hband
    omega
  refine ⟨hrange.1, hrange.2, ?_⟩
  rw [makeStatusCode_band h hrange.1 hrange.2, hnumber]
  congr 1
  omega

theorem statusCodes_codec :
    (∀ (status : CheckerResultStatus) (test : Option Int),
      ((∃ code, makeStatusCode status test = .ok code) ↔ Codable status test) ∧
      (¬Codable status test → ∃ param, makeStatusCode status test = .error (.argument "Invalid value" param)) ∧
      ∀ code, makeStatusCode status test = .ok code → code ≠ 0 ∧ code ≠ 1 ∧
        (status.perTest = true → test = some (testNumber code) ∧ template code = verdictTemplate status)) ∧
    ∀ code : Int,
      ((∃ status : CheckerResultStatus, status.perTest = true ∧ template code = verdictTemplate status) →
        1 ≤ testNumber code ∧ testNumber code ≤ 999 ∧
        ∃! status : CheckerResultStatus,
          status.perTest = true ∧ makeStatusCode status (some (testNumber code)) = .ok code) ∧
      ((¬∃ status : CheckerResultStatus, status.perTest = true ∧ template code = verdictTemplate status) →
        code ≠ 0 → code ≠ 1 → code ≠ 2 → code ≠ -1 → description code = "Internal error") := by
  refine ⟨fun status test => ⟨makeStatusCode_iff status test, makeStatusCode_throws, fun code hok => ?_⟩,
    fun code => ⟨fun hread => ?_, fun hno h0 h1 h2 hce => ?_⟩⟩
  · obtain ⟨h0, h1⟩ := makeStatusCode_ne hok
    exact ⟨h0, h1, fun hper => makeStatusCode_read hper hok⟩
  · obtain ⟨status, hper, htemplate⟩ := hread
    obtain ⟨hlow, hhigh, hok⟩ := makeStatusCode_of_template hper htemplate
    refine ⟨hlow, hhigh, status, ⟨hper, hok⟩, fun other hother => ?_⟩
    -- another verdict with this code has the template as well
    have hread := (makeStatusCode_read hother.1 hother.2).2
    exact verdictTemplate_injective hother.1 hper (hread.symm.trans htemplate)
  · apply description_other
    exact template_other (fun status hper hin => hno ⟨status, hper, template_inBand hper hin⟩) h0 h1 h2 hce

end OlympSystem.Domain
